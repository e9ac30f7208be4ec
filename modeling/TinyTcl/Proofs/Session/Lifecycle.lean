import TinyTcl.Proofs.Session.Effect

/-! The life of interpreters over whole sessions. In a live session every interpreter has a scope
active, its turns start from there, and they work among all scopes: a run is running while it is
carried out, and blocks make other scopes active. Behind every request, however it ended, each
interpreter has its own scope active again, and the answers are those of the session
(`LiveSession.performAll_eq`). With that, what may become of an interpreter is read off the effects
of requests (`Session.lifecycle`). -/
namespace TinyTcl

/-- A session in which each interpreter has a scope active. -/
structure LiveSession where
  session : Session
  /-- The scope that is active in each interpreter. -/
  active : Table ScopeId

namespace LiveSession

/-- The session without anything. -/
def empty : LiveSession := ⟨.empty, .empty⟩

/-- Lets an interpreter take a turn from the scope that is active in it. -/
def act (w : LiveSession) (handle : Text) (f : Interpreter → ScopeId → LiveTurn) :
    Except Failure Answer × LiveSession :=
  match w.session.interpreters.find? handle, w.active.find? handle with
  | some i, some active =>
    let live := f i active
    let (outcome, session) := w.session.afterTurn handle live.turn
    (outcome, ⟨session, w.active.insert handle live.active⟩)
  | _, _ => (.ok .nothing, w)

/-- Answers a request for which no interpreter takes a turn. -/
def answer (w : LiveSession) (r : Request) (active : Table ScopeId) :
    Except Failure Answer × LiveSession :=
  let (outcome, session) := w.session.perform r
  (outcome, ⟨session, active⟩)

/-- Answers a request. -/
def perform (w : LiveSession) : Request → Except Failure Answer × LiveSession
  | .run handle => w.act handle fun i active => i.runFrom w.session.store active
  | .runBlock handle body scope => w.act handle fun i active =>
    i.runBlockFrom w.session.store active body (scope.bind w.session.scopes.find?)
  | .execute handle script filename => w.act handle fun i active =>
    i.executeTextFrom w.session.store active script filename
  | .create handle setup =>
    w.answer (.create handle setup) (w.active.insert handle (w.session.build setup).1.scope)
  | .dropInterpreter handle => w.answer (.dropInterpreter handle) (w.active.erase handle)
  | r => w.answer r w.active

/-- The outcomes of several requests, and the session after them. -/
def performAll (w : LiveSession) : List Request → List (Except Failure Answer) × LiveSession
  | [] => ([], w)
  | first :: rest =>
    let (outcome, w) := w.perform first
    let (outcomes, w) := w.performAll rest
    (outcome :: outcomes, w)

/-- Every interpreter has its own scope active. -/
def AtRest (w : LiveSession) : Prop :=
  ∀ handle, w.active.find? handle = (w.session.interpreters.find? handle).map (·.scope)

section Perform

variable {w : LiveSession} (sound : w.session.Sound) (rest : w.AtRest)

include rest

/-- An interpreter that has its own scope active takes its turn as in the session, and has that
scope active again. -/
theorem act_eq {handle : Text} {f : Interpreter → ScopeId → LiveTurn} {g : Interpreter → Turn Value}
    (same : ∀ i, w.session.interpreters.find? handle = some i →
      (f i i.scope).turn = g i ∧ (f i i.scope).active = i.scope) :
    w.act handle f =
      let (outcome, session) :=
        w.session.onInterpreter handle fun i => w.session.afterTurn handle (g i)
      (outcome, ⟨session, w.active⟩) := by
  have active := rest handle
  unfold act Session.onInterpreter
  cases found : w.session.interpreters.find? handle with
  | none => rfl
  | some i =>
    rw [found] at active
    obtain ⟨turn, again⟩ := same i found
    rw [active]
    dsimp only [Option.map_some]
    rw [turn, again, Table.insert_of_find? active]

include sound

/-- A request that puts no interpreter under a handle is answered as in the session. -/
theorem perform_of_stays {r : Request} (stays : r.replaced? = none) :
    w.perform r = w.answer r w.active := by
  cases r with
  | create | dropInterpreter => cases stays
  | run handle =>
    refine act_eq rest fun i found => ⟨?_, (i.sound_runFrom _ _).active⟩
    exact i.turn_runFrom sound.orderly (sound.interpreters handle i found).2
  | runBlock handle body scope =>
    refine act_eq rest fun i found => ⟨?_, (i.sound_runBlockFrom _ _ _ _).1.active⟩
    exact i.turn_runBlockFrom sound.orderly i.scope body (sound.has_runBlock found scope)
  | execute handle script filename =>
    refine act_eq rest fun i found => ⟨?_, (i.sound_executeTextFrom _ _ _ _).1.active⟩
    exact i.turn_executeTextFrom sound.orderly (sound.interpreters handle i found).2 script filename
  | _ => rfl

/-- A live session answers as the session does, and every interpreter has its own scope active
afterwards. -/
theorem perform_eq (r : Request) : (w.perform r).1 = (w.session.perform r).1 ∧
    (w.perform r).2.session = (w.session.perform r).2 ∧ (w.perform r).2.AtRest := by
  have effect := sound.effect r
  -- Where no other interpreter comes in, the scope of the one that is there stays the same.
  have others {handle : Text} (stays : r.replaced? ≠ some handle) : w.active.find? handle =
      ((w.session.perform r).2.interpreters.find? handle).map (·.scope) := by
    rw [rest handle]
    exact (effect.scope_eq stays).symm
  cases replaced : r.replaced? with
  | none =>
    rw [perform_of_stays sound rest replaced]
    exact ⟨rfl, rfl, fun handle => others (by simp [replaced])⟩
  | some handle =>
    cases r with
    | create other setup =>
      refine ⟨rfl, rfl, fun name => ?_⟩
      change (w.active.insert other _).find? name = _
      rw [Table.find?_insert]
      by_cases same : name = other
      · change _ = ((w.session.interpreters.insert other _).find? name).map _
        rw [Table.find?_insert, if_pos same, if_pos same]
        rfl
      · rw [if_neg same]
        exact others (by simpa [Request.replaced?] using Ne.symm same)
    | dropInterpreter other =>
      refine ⟨rfl, rfl, fun name => ?_⟩
      change (w.active.erase other).find? name = _
      rw [Table.find?_erase]
      by_cases same : name = other
      · change _ = ((w.session.interpreters.erase other).find? name).map _
        rw [Table.find?_erase, if_pos same, if_pos same]
        rfl
      · rw [if_neg same]
        exact others (by simpa [Request.replaced?] using Ne.symm same)
    | _ => cases replaced

theorem performAll_eq (requests : List Request) :
    (w.performAll requests).1 = (w.session.performAll requests).1 ∧
      (w.performAll requests).2.session = (w.session.performAll requests).2 ∧
      (w.performAll requests).2.AtRest := by
  induction requests generalizing w with
  | nil => exact ⟨rfl, rfl, rest⟩
  | cons first others ih =>
    obtain ⟨outcome, session, again⟩ := perform_eq sound rest first
    have later := ih (session ▸ sound.perform first) again
    rw [session] at later
    refine ⟨?_, later.2⟩
    change (w.perform first).1 :: _ = (w.session.perform first).1 :: _
    rw [outcome]
    exact congrArg _ later.1

end Perform

end LiveSession

namespace Session

/-- Where a handle stands for an interpreter after some requests, it stood for it before, or one of
the requests made it. Its output has only grown since. -/
theorem Sound.origin {s : Session} (h : s.Sound) {requests : List Request} {handle : Text}
    {i : Interpreter} (found : (s.performAll requests).2.interpreters.find? handle = some i) :
    (∃ j, s.interpreters.find? handle = some j ∧ (∀ r ∈ requests, r.replaced? ≠ some handle) ∧
        j.output <+: i.output) ∨
      ∃ before setup after, requests = before ++ .create handle setup :: after ∧
        (∀ r ∈ after, r.replaced? ≠ some handle) ∧ setup.banner <+: i.output := by
  induction requests generalizing s with
  | nil => exact .inl ⟨i, found, by simp, List.prefix_rfl⟩
  | cons first rest ih =>
    have effect := h.effect first
    rcases ih (h.perform first) found with
      ⟨j, known, stays, grown⟩ | ⟨before, setup, after, whole, made⟩
    · by_cases replaced : first.replaced? = some handle
      · obtain ⟨setup, rfl, rfl⟩ := effect.made replaced known
        rw [(s.build_spec setup).2.1] at grown
        exact .inr ⟨[], setup, rest, rfl, stays, grown⟩
      · obtain ⟨k, earlier, advances⟩ := effect.advances_of_after replaced known
        refine .inl ⟨k, earlier, ?_, advances.output.trans grown⟩
        exact List.forall_mem_cons.mpr ⟨replaced, stays⟩
    · exact .inr ⟨first :: before, setup, after, congrArg (first :: ·) whole, made⟩

/-- **Interpreters live once.** Let a host program ask what it likes, in any order and with any
outcome. Turns that start from the scope that is active in their interpreter, and work among all
scopes, give the same answers, and behind every request each interpreter has its own scope active
again. No interpreter is left at work, and its output goes on from the banner with which it was
made. A run that is refused, since the interpreter has run or has no script, changes nothing at all;
another run leaves it done or failed, as it is answered. Whatever else is asked, the interpreter
puts out and traces more, if anything, and keeps its stage and its result. -/
theorem lifecycle (requests : List Request) :
    let s := (empty.performAll requests).2
    let live := LiveSession.empty.performAll requests
    live.1 = (empty.performAll requests).1 ∧ live.2.session = s ∧ live.2.AtRest ∧
      ∀ handle i, s.interpreters.find? handle = some i →
        i.stage ≠ .running ∧
        (∃ before setup after, requests = before ++ .create handle setup :: after ∧
          (∀ r ∈ after, r.replaced? ≠ some handle) ∧ setup.banner <+: i.output) ∧
        (¬ i.CanRun → i.refusal.family = .lifecycle ∧
          s.perform (.run handle) = (.error (.diagnostic { cause := i.refusal }), s)) ∧
        (i.CanRun → ∃ j, (s.perform (.run handle)).2.interpreters.find? handle = some j ∧
          ((∃ answer, (s.perform (.run handle)).1 = .ok answer) ∧ j.stage = .done ∨
            (∃ failure, (s.perform (.run handle)).1 = .error failure) ∧ j.stage = .failed)) ∧
        ∀ r : Request, r.replaced? ≠ some handle →
          ∃ j, (s.perform r).2.interpreters.find? handle = some j ∧
            i.Advances (r = .run handle) j := by
  intro s live
  have sound : s.Sound := sound_performAll requests
  have steady : s.Steady := steady_performAll requests
  obtain ⟨outcomes, session, rest⟩ :=
    LiveSession.performAll_eq (w := .empty) sound_empty (fun _ => rfl) requests
  refine ⟨outcomes, session, rest, fun handle i found => ⟨?_, ?_, fun other => ?_, ?_, ?_⟩⟩
  · exact (steady.interpreters handle i found).1
  · rcases sound_empty.origin found with ⟨j, known, -⟩ | made
    · cases known
    · exact made
  · exact ⟨i.family_refusal, steady.perform_run found other⟩
  · exact perform_run_of_canRun found
  · intro r stays
    exact (sound.effect r).advances_of_before stays found

/-- A run that fails in a block, after which another interpreter fails in a block of its own and
then runs its script. -/
theorem lifecycle_of_failures :
    let setup (script : String) (inChild : Bool) : Setup := {
      script := some script.toList, filename := none, scope := some ['g'], inChild
      tracing := inChild, banner := defaultBanner }
    let requests : List Request := [.openRoot ['g'],
      .create ['a'] (setup "set x 1; \x7bset y 2; puts $z\x7d" true),
      .create ['b'] (setup "puts $x" false), .run ['a'],
      .execute ['b'] "set x 3; \x7bset x 4; expr $x / 0\x7d".toList none]
    let s := (empty.performAll requests).2
    let live := LiveSession.empty.performAll requests
    live.2.active.find? ['a'] = some 1 ∧ live.2.active.find? ['b'] = some 0 ∧
      (∃ i, s.interpreters.find? ['a'] = some i ∧ i.stage = .failed ∧
        s.perform (.run ['a']) = (.error (.diagnostic { cause := i.refusal }), s)) ∧
      ∃ i j, s.interpreters.find? ['b'] = some i ∧ i.CanRun ∧
        (s.perform (.run ['b'])).2.interpreters.find? ['b'] = some j ∧ j.stage = .done ∧
        i.Advances True j := by
  intro setup requests s live
  obtain ⟨-, session, rest, each⟩ := lifecycle requests
  have first : (s.interpreters.find? ['a']).map (fun i => (i.scope, i.stage)) =
      some (1, .failed) := by decide +kernel
  have second : (s.interpreters.find? ['b']).map (fun i => (i.scope, i.stage, i.reader.isSome)) =
      some (0, .ready, true) := by decide +kernel
  have ends : ((s.perform (.run ['b'])).2.interpreters.find? ['b']).map (·.stage) =
      some .done := by decide +kernel
  obtain ⟨i, foundI, factsI⟩ := Option.map_eq_some_iff.mp first
  obtain ⟨j, foundJ, factsJ⟩ := Option.map_eq_some_iff.mp second
  simp only [Prod.mk.injEq] at factsI factsJ
  have refused : ¬ i.CanRun := fun can => by simp [can.1] at factsI
  have can : j.CanRun := ⟨factsJ.2.1, fun none => by simp [none] at factsJ⟩
  obtain ⟨-, -, unchanged, -⟩ := each ['a'] i foundI
  obtain ⟨-, -, -, -, goes⟩ := each ['b'] j foundJ
  obtain ⟨k, after, advances⟩ := goes (.run ['b']) nofun
  refine ⟨?_, ?_, ⟨i, foundI, factsI.2, (unchanged refused).2⟩, j, k, foundJ, can, after, ?_,
    by simpa using advances⟩
  · rw [rest, session, foundI]
    exact congrArg some factsI.1
  · rw [rest, session, foundJ]
    exact congrArg some factsJ.1
  · rw [after] at ends
    exact Option.some.inj ends

end Session
end TinyTcl
