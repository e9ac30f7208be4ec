import TinyTcl.Proofs.Session.Effect

/-! Interpreters that stand on a root. A scope does not keep the one around it, but an interpreter
keeps the scope that it was given and the one that it runs in, which is the same or lies in it. So
where the scope that it was given is a root, no scope around it can go, whatever a host program
drops, and the turns of the interpreter miss none (`Session.turns_keep_scopes`). -/
namespace TinyTcl

/-- From the scope of an interpreter that was given a root all scopes are found. -/
theorem Interpreter.Seated.isWhole {i : Interpreter} {s : Store} (h : i.Seated s)
    (orderly : s.Orderly) (has : s.Has i.given)
    (root : (s.find? i.given).bind (·.parent) = none) : (s.chain i.scope).isWhole = true := by
  have given : (s.chain i.given).isWhole = true := by
    obtain ⟨scope, newer, older, same, stands⟩ := orderly.exists_stands has
    rw [← same, stands.find?_eq] at root
    have outermost : scope.parent = none := root
    rw [← same, stands.chain_eq, outermost]
    cases older <;> rfl
  rcases h with same | place
  · rwa [same]
  · exact (orderly.isWhole_of_place place).trans given

namespace Session

/-- The answer for a turn that misses no scope does not tell of one that is gone. -/
theorem answer_ne_lostScope {s : Session} {handle : Text} {i : Interpreter}
    (found : s.interpreters.find? handle = some i) {t : LiveTurn} {f : Interpreter → Turn Value}
    (same : t.turn = f i) (standing : t.Standing) :
    (s.onInterpreter handle fun i => s.afterTurn handle (f i)).1 ≠ .error .lostScope := by
  unfold onInterpreter
  rw [found]
  exact map_ne_lostScope _ (same ▸ standing.outcome)

/-- **No scope goes from under an interpreter.** Let a host program have opened and dropped scopes
and interpreters as it likes. An interpreter that was given a root scope, and runs in it or in one
of its own inside it, never finds that a scope is gone: not when it runs its script, nor when it
carries out a script or a block in its own scope, traced or not. Among all scopes these turns are
the same, and every command in them, at whatever depth of blocks, has all scopes around it before
and after. -/
theorem turns_keep_scopes {requests : List Request} {handle : Text} {i : Interpreter}
    (found : (empty.performAll requests).2.interpreters.find? handle = some i)
    (root : ((empty.performAll requests).2.store.find? i.given).bind (·.parent) = none) :
    let session := (empty.performAll requests).2
    let s := session.store
    ((session.perform (.run handle)).1 ≠ .error .lostScope ∧
        (i.runFrom s i.scope).turn = i.run s ∧ (i.runFrom s i.scope).Standing) ∧
      (∀ script filename,
        (session.perform (.execute handle script filename)).1 ≠ .error .lostScope ∧
          (i.executeTextFrom s i.scope script filename).turn = i.executeText s script filename ∧
          (i.executeTextFrom s i.scope script filename).Standing) ∧
      ∀ body, (session.perform (.runBlock handle body none)).1 ≠ .error .lostScope ∧
        (i.runBlockFrom s i.scope body none).turn = i.runBlock s body none ∧
        (i.runBlockFrom s i.scope body none).Standing := by
  intro session s
  have sound : session.Sound := sound_performAll requests
  obtain ⟨given, scope⟩ := sound.interpreters handle i found
  have whole : (s.chain i.scope).isWhole = true :=
    ((steady_performAll requests).interpreters handle i found).2.isWhole sound.orderly given root
  refine ⟨?_, fun script filename => ?_, fun body => ?_⟩
  · have same := i.turn_runFrom sound.orderly scope
    have standing := (i.sound_runFrom s i.scope).kept sound.orderly whole
    exact ⟨answer_ne_lostScope (f := fun i => i.run s) found same standing, same, standing⟩
  · have same := i.turn_executeTextFrom sound.orderly scope script filename
    have standing := (i.sound_executeTextFrom s i.scope script filename).1.kept sound.orderly whole
    exact ⟨answer_ne_lostScope (f := fun i => i.executeText s script filename) found same standing,
      same, standing⟩
  · have same : (i.runBlockFrom s i.scope body none).turn = i.runBlock s body none :=
      i.turn_runBlockFrom sound.orderly i.scope body scope
    have standing := (i.sound_runBlockFrom s i.scope body none).1.kept sound.orderly whole
    exact ⟨answer_ne_lostScope (f := fun i => i.runBlock s body none) found same standing, same,
      standing⟩

/-- A traced interpreter in a scope of its own, whose surrounding scope has lost its handle and the
other interpreter in it. -/
theorem turns_keep_scopes_dropped :
    let setup (inChild : Bool) : Setup := {
      script := some "puts $x; \x7bset y $x; \x7bunset y; puts $x\x7d; unset y\x7d".toList
      filename := none, scope := some ['g'], inChild, tracing := true, banner := defaultBanner }
    let before : List Request := [.openRoot ['g'], .define ['g'] ['x'] (.text ['1'])]
    let requests := before ++ [.create ['i'] (setup true), .create ['j'] (setup false),
      .openChild ['h'] ['g'], .dropScope ['g'], .dropInterpreter ['j']]
    let session := (empty.performAll requests).2
    let i := ((empty.performAll before).2.build (setup true)).1
    session.interpreters.find? ['i'] = some i ∧
      (session.store.find? i.given).bind (·.parent) = none ∧
      session.scopes.find? ['g'] = none ∧
      (i.runFrom session.store i.scope).journal.length = 7 ∧
      (session.perform (.run ['i'])).1 ≠ .error .lostScope ∧
      (i.runFrom session.store i.scope).Standing := by
  intro setup before requests session i
  have found : session.interpreters.find? ['i'] = some i := rfl
  have root : (session.store.find? i.given).bind (·.parent) = none := rfl
  obtain ⟨⟨answer, -, standing⟩, -⟩ := turns_keep_scopes found root
  exact ⟨found, root, rfl, by decide +kernel, answer, standing⟩

end Session
end TinyTcl
