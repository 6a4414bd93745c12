import Lispbox.Proofs.Session.Debugging
import Lispbox.Proofs.Session.Transcript

/-!
# Debugging changes nothing but pauses

A run that is debugged is compared with the plain run of the same request. Where the first pauses
the second does not wait, so a reply to a pause is a move of the first run alone, and all other
moves are moves of both (`Progress.unpaused`).

Between pauses the two are at the same place, with sessions that differ in messages about pauses
only (`Alike`). At a pause the plain run is where the other one will be when it goes on, whatever
the answer (`Beside.paused`). The induction for a conversation is on the dialogue
(`converse_meets`), that for a run on its moves (`play_beside`).

* `debug_transparent`: result, modules and messages of the two runs.
-/
namespace Lispbox

/-- The moves that are no replies to pauses of the debugger. -/
def Progress.unpaused (p : Progress) : List Move → List Move
  | [] => []
  | v :: vs => if p.isPaused then (p.move v).unpaused vs else v :: (p.move v).unpaused vs

/-- The request with another mode. -/
def RunRequest.withMode (r : RunRequest) (mode : RunMode) : RunRequest := { r with mode := mode }

/-- The message is not about a pause of the debugger. -/
def Message.isPlain (m : Message) : Bool := m.kind != .debug

/-- The wait is not for the debugger, and however the run goes on after it, it emits output only. -/
def Wait.IsPlain : Wait → Prop
  | .input resume => ∀ a, (resume a).Emits Event.IsOutput
  | .sleep _ resume => ∀ a, (resume a).Emits Event.IsOutput
  | .debug _ => False

namespace Session

/-- The session of a run that is debugged, and that of the plain run. -/
structure Alike (s₀ sd sp : Session) : Prop where
  setup : sd.setup = sp.setup
  registry : sd.registry = sp.registry
  files : sd.files = sp.files
  interrupted : sd.interrupted = sp.interrupted
  messages : ∃ md ms, s₀.Published sd md ∧ s₀.Published sp (ms ++ [.start .plain]) ∧
    md.filter Message.isPlain = ms ++ [.start .debug]

variable {s₀ sd sp sd' sp' : Session} {md mp : List Message} {m : Message}

/-- Both go on, and what the plain run publishes is what the other one publishes apart from
pauses. -/
theorem Alike.adds (h : Alike s₀ sd sp) (hd : Adds md sd sd') (hp : Adds mp sp sp')
    (hm : md.filter Message.isPlain = mp) : Alike s₀ sd' sp' := by
  obtain ⟨md₀, ms, hmd, hmp, hms⟩ := h.messages
  refine ⟨hd.setup.trans (h.setup.trans hp.setup.symm),
    hd.registry.trans (h.registry.trans hp.registry.symm),
    hd.files.trans (h.files.trans hp.files.symm),
    hd.interrupted.trans (h.interrupted.trans hp.interrupted.symm),
    md ++ md₀, mp ++ ms, hmd.trans hd.published, ?_, ?_⟩
  · rw [List.append_assoc]
    exact hmp.trans hp.published
  · rw [List.filter_append, hm, hms, List.append_assoc]

theorem Alike.publish (h : Alike s₀ sd sp) (hm : m.isPlain = true) :
    Alike s₀ (sd.publish m) (sp.publish m) :=
  h.adds (adds_publish m) (adds_publish m) (by simp [hm])

theorem Alike.note (h : Alike s₀ sd sp) {n : Notice} (hn : n.message? = none) :
    Alike s₀ (sd.note n) (sp.note n) :=
  h.adds (adds_note n) (adds_note n) (by simp [hn])

theorem Alike.enter (h : Alike s₀ sd sp) (a b : ExecutionState) :
    Alike s₀ (sd.enter a) (sp.enter b) :=
  h.adds (adds_enter a) (adds_enter b) rfl

/-- Messages of outputs are not about pauses. -/
theorem ofOutput_plain {o : Output} {m : Message} (h : Message.ofOutput o = .ok (some m)) :
    m.isPlain = true := by
  unfold Message.ofOutput at h
  split at h
  · cases h; rfl
  · split at h
    · cases h; rfl
    · cases h
  · cases h
  · cases h
  · cases h

/-! ## Conversations -/

/-- Reactions to the same question: they are the same, but at a pause the plain run goes on. -/
inductive Reacts (s₀ : Session) : (q : Query) → Reaction q × Stage → Reaction q × Stage → Prop where
  | reply {q : Query} {st st' : Stage} (a : Except Signal q.Answer)
    (h : Alike s₀ st.session st'.session) (hin : st.stdin = st'.stdin) :
    Reacts s₀ q (.reply a, st) (.reply a, st')
  | input {prompt : String} {st st' : Stage} (h : Alike s₀ st.session st'.session)
    (hin : st.stdin = st'.stdin) :
    Reacts s₀ (.input prompt) (.wait .input, st) (.wait .input, st')
  | sleep {duration : Nat} {st st' : Stage} (h : Alike s₀ st.session st'.session)
    (hin : st.stdin = st'.stdin) :
    Reacts s₀ (.sleep duration) (.wait (.sleep duration), st) (.wait (.sleep duration), st')
  | fault {q : Query} {st st' : Stage} (u : UnknownEvent) (h : Alike s₀ st.session st'.session)
    (hin : st.stdin = st'.stdin) :
    Reacts s₀ q (.fault u, st) (.fault u, st')
  | paused {file : String} {n : Nat} {st st' : Stage} (h : Alike s₀ st.session st'.session)
    (hin : st.stdin = st'.stdin) :
    Reacts s₀ (.line file n) (.wait .debug, st) (.reply (.ok ()), st')

theorem attend_reacts (files : List (String × String)) {st st' : Stage}
    (h : Alike s₀ st.session st'.session) (hin : st.stdin = st'.stdin) {q : Query}
    (hq : q.EmitsOutput) : Reacts s₀ q (st.attend true files q) (st'.attend false files q) := by
  cases q with
  | poll => exact .reply _ h hin
  | line file n =>
    dsimp only [Stage.attend]
    cases (st.session.debugger.reach file n).1 with
    | true => exact .paused (h.adds (adds_pause _ n) (.refl _) rfl) hin
    | false =>
      have hreach : Adds [] st.session
          { st.session with debugger := (st.session.debugger.reach file n).2 } :=
        ⟨rfl, rfl, rfl, rfl, [], rfl, rfl⟩
      exact .reply _ (h.adds hreach (.refl _) rfl) hin
  | emit e =>
    obtain ⟨o, rfl⟩ := hq e rfl
    dsimp only [Stage.attend]
    cases ho : Message.ofOutput o with
    | error u =>
      rw [deliver_unknown (e := .output o) ho, deliver_unknown (e := .output o) ho]
      have hflagged : Alike s₀ { st.session with interrupted := true }
          { st'.session with interrupted := true } :=
        ⟨h.setup, h.registry, h.files, rfl, h.messages⟩
      exact .fault u (hflagged.publish rfl) hin
    | ok shown =>
      obtain ⟨hokd, hd⟩ := adds_deliver (s := st.session) (e := .output o) ho
      obtain ⟨hokp, hp⟩ := adds_deliver (s := st'.session) (e := .output o) ho
      rw [hokd, hokp]
      refine .reply _ (h.adds hd hp ?_) hin
      cases shown with
      | none => rfl
      | some m => simp [ofOutput_plain ho]
  | input prompt =>
    have hasked := h.adds (adds_deliver (e := .inputRequest prompt) rfl).2
      (adds_deliver (e := .inputRequest prompt) rfl).2 rfl
    dsimp only [Stage.attend]
    rw [← hin]
    cases st.stdin with
    | nil => exact .input (hasked.enter _ _) rfl
    | cons line rest => exact .reply _ hasked rfl
  | sleep duration =>
    have hslept := h.adds (adds_deliver (e := .sleep duration) rfl).2
      (adds_deliver (e := .sleep duration) rfl).2 rfl
    dsimp only [Stage.attend]
    rw [hslept.setup]
    split
    · exact .sleep hslept hin
    · exact .reply _ hslept hin
  | readFile name => exact .reply _ h hin

theorem react_reacts (files : List (String × String)) {st st' : Stage}
    (h : Alike s₀ st.session st'.session) (hin : st.stdin = st'.stdin) {q : Query}
    (hq : q.EmitsOutput) : Reacts s₀ q (st.react true files q) (st'.react false files q) := by
  unfold Stage.react
  rw [h.interrupted]
  split
  · exact .reply _ h hin
  · exact attend_reacts files h hin hq

/-- Where a conversation halts, and where the plain one does: there too, or wherever it comes to if
it goes on from a pause. -/
inductive Meets (s₀ : Session) (files : List (String × String)) :
    Halt × Stage → Halt × Stage → Prop where
  | same {halt : Halt} {st st' : Stage} (h : Alike s₀ st.session st'.session)
    (hin : st.stdin = st'.stdin) (hw : ∀ w, halt = .waits w → w.IsPlain) :
    Meets s₀ files (halt, st) (halt, st')
  | paused {resume : Except Signal Unit → Dialogue (Except Exit Value)} {st st' : Stage}
    (h : Alike s₀ st.session st'.session) (hin : st.stdin = st'.stdin)
    (hd : (resume (.ok ())).Emits Event.IsOutput) :
    Meets s₀ files (.waits (.debug resume), st) (converse false files (resume (.ok ())) st')

theorem haltOf_alike (h : Alike s₀ sd sp) (e : RunEnd) : sd.haltOf e = sp.haltOf e := by
  unfold haltOf
  rw [h.interrupted]

theorem converse_meets (files : List (String × String)) {d : Dialogue (Except Exit Value)}
    (hd : d.Emits Event.IsOutput) {st st' : Stage} (h : Alike s₀ st.session st'.session)
    (hin : st.stdin = st'.stdin) :
    Meets s₀ files (converse true files d st) (converse false files d st') := by
  induction d generalizing st st' with
  | done r m =>
    rw [converse, converse, haltOf_alike h]
    exact .same h hin fun w hw => absurd hw (haltOf_over _ _ w)
  | abort a m =>
    rw [converse, converse, haltOf_alike h]
    exact .same h hin fun w hw => absurd hw (haltOf_over _ _ w)
  | ask m q resume ih =>
    obtain ⟨hq, hresume⟩ := hd
    have hreacts := react_reacts files h hin hq
    rw [converse, converse]
    generalize st.react true files q = x at hreacts
    generalize st'.react false files q = y at hreacts
    cases hreacts with
    | reply a h hin => exact ih a (hresume a) h hin
    | input h hin => exact .same h hin fun w hw => by cases hw; exact hresume
    | sleep h hin => exact .same h hin fun w hw => by cases hw; exact hresume
    | fault u h hin => exact .same h hin fun w hw => by cases hw
    | paused h hin => exact .paused h hin (hresume _)

/-! ## Attempts -/

theorem Alike.installFound (h : Alike s₀ sd sp) (modules : List Module) :
    Alike s₀ (sd.installFound modules) (sp.installFound modules) := by
  have hinstalled : Alike s₀ { sd with registry := modules.foldl Registry.install sd.registry }
      { sp with registry := modules.foldl Registry.install sp.registry } :=
    ⟨h.setup, by rw [h.registry], h.files, h.interrupted, h.messages⟩
  exact hinstalled.publish rfl

theorem Alike.prefetch (h : Alike s₀ sd sp) (p : Program) :
    Alike s₀ (sd.prefetch p) (sp.prefetch p) := by
  have habsent : sd.absent p = sp.absent p := by
    rw [absent, absent, h.registry]
  rw [prefetch_eq, prefetch_eq, habsent, h.setup]
  split
  · exact h
  · split
    · exact h.note rfl
    · exact (h.note rfl).installFound _

theorem Alike.installMissing (h : Alike s₀ sd sp) (name : String) :
    Alike s₀ (sd.installMissing name).2 (sp.installMissing name).2 := by
  have hasked : Alike s₀ (sd.asking name) (sp.asking name) := (h.publish rfl).note rfl
  cases hm : sp.setup.resolver.resolve name with
  | error e =>
    rw [installMissing_of_error hm, installMissing_of_error (h.setup ▸ hm)]
    exact hasked.publish rfl
  | ok m =>
    have hinstalled : Alike s₀ { sd.asking name with registry := sd.registry.install m }
        { sp.asking name with registry := sp.registry.install m } :=
      ⟨hasked.setup, by rw [h.registry], hasked.files, hasked.interrupted, hasked.messages⟩
    rw [installMissing_of_ok hm, installMissing_of_ok (h.setup ▸ hm)]
    exact hinstalled.publish rfl

theorem Alike.startDebugger (h : Alike s₀ sd sp) (source : SourceUnit)
    (request : RunRequest) :
    Alike s₀ (sd.startDebugger source (request.withMode .debug))
      (sp.startDebugger source (request.withMode .plain)) :=
  ⟨h.setup, h.registry, h.files, h.interrupted, h.messages⟩

theorem attempt_meets (h : Alike s₀ sd sp) (source : SourceUnit) (request : RunRequest) :
    Meets s₀ sd.files (sd.attempt source (request.withMode .debug))
      (sp.attempt source (request.withMode .plain)) := by
  cases hc : compile source.text source.file sd.setup.config.recursionLimit with
  | error e =>
    rw [attempt_of_error hc]
    rw [h.setup] at hc
    rw [attempt_of_error hc]
    exact .same h rfl nofun
  | ok p =>
    have hrunning : Alike s₀ ((sd.prefetch p).enter .running) ((sp.prefetch p).enter .running) :=
      (h.prefetch p).enter _ _
    rw [attempt_of_ok hc]
    rw [h.setup] at hc
    rw [attempt_of_ok hc, hrunning.registry, hrunning.setup, h.setup, ← hrunning.files,
      files_enter, files_prefetch]
    exact converse_meets sd.files (dialogue_outputs _ _ p) hrunning rfl

/-! ## Runs -/

/-- A run that is debugged and the plain run. At a pause the plain run is where the other one comes
to when it goes on. -/
inductive Beside (s₀ : Session) (source : SourceUnit) (request : RunRequest) :
    Progress → Progress → Prop where
  | ended {sd sp : Session} {r : Except RunFault Outcome} (h : Alike s₀ sd sp) :
    Beside s₀ source request ⟨sd, some r⟩ ⟨sp, some r⟩
  | waits {sd sp : Session} {retries : Nat} {files : List (String × String)} {stdin : List String}
    {w : Wait} (h : Alike s₀ sd sp)
    (hd : sd.flight = some ⟨source, request.withMode .debug, retries, files, stdin, w⟩)
    (hp : sp.flight = some ⟨source, request.withMode .plain, retries, files, stdin, w⟩)
    (hw : w.IsPlain) : Beside s₀ source request ⟨sd, none⟩ ⟨sp, none⟩
  | paused {sd sp : Session} {retries : Nat} {files : List (String × String)}
    {stdin : List String} {resume : Except Signal Unit → Dialogue (Except Exit Value)}
    (h : Alike s₀ sd sp) (hd : sd.flight =
      some ⟨source, request.withMode .debug, retries, files, stdin, .debug resume⟩)
    (hgo : (resume (.ok ())).Emits Event.IsOutput) :
    Beside s₀ source request ⟨sd, none⟩ (sp.resume
      ⟨source, request.withMode .plain, retries, files, stdin, .debug resume⟩ (resume (.ok ())))

variable {source : SourceUnit} {request : RunRequest}

theorem close_beside (h : Alike s₀ sd sp) (hm : m.isPlain = true) (next : ExecutionState)
    (o : Outcome) : Beside s₀ source request (sd.close m next o) (sp.close m next o) := by
  have hclosed := (h.publish hm).enter next next
  exact .ended
    ⟨hclosed.setup, hclosed.registry, hclosed.files, hclosed.interrupted, hclosed.messages⟩

theorem finish_beside (h : Alike s₀ sd sp) (e : AttemptEnd) :
    Beside s₀ source request (sd.finish source e) (sp.finish source e) := by
  cases e with
  | compileFailed e => exact close_beside h rfl _ _
  | completed v => exact close_beside h rfl _ _
  | raised e =>
    unfold finish
    dsimp only
    rw [h.setup]
    exact close_beside h rfl _ _
  | interrupted => exact close_beside h rfl _ _
  | quit => exact close_beside h rfl _ _

theorem fail_beside (h : Alike s₀ sd sp) (f : RunFault) :
    Beside s₀ source request (sd.fail f) (sp.fail f) := by
  have hfailed := h.enter .errored .errored
  exact .ended
    ⟨hfailed.setup, hfailed.registry, hfailed.files, hfailed.interrupted, hfailed.messages⟩

/-- Wherever two attempts halt, the runs go on beside each other, also into another attempt. -/
theorem proceed_beside (files : List (String × String)) (retries : Nat) {x y : Halt × Stage}
    (h : Meets s₀ files x y) : Beside s₀ source request
      (proceed source (request.withMode .debug) files retries x.1 x.2)
      (proceed source (request.withMode .plain) files retries y.1 y.2) := by
  -- where the run that is debugged goes on, the plain run has come to the same place
  refine proceed_induction
    (A := fun n given x' => ∃ y', Meets s₀ given x' y' ∧
      proceed source (request.withMode .plain) files retries y.1 y.2 =
        proceed source (request.withMode .plain) given n y'.1 y'.2)
    (P := fun q => Beside s₀ source request q
      (proceed source (request.withMode .plain) files retries y.1 y.2)) ?_ ?_ ?_ ?_ ?_ ⟨y, h, rfl⟩
  · rintro n given w st ⟨y', h, hsame⟩
    rw [hsame]
    cases h with
    | same h hin hw =>
      rw [proceed_waits, hin]
      exact .waits ⟨h.setup, h.registry, h.files, h.interrupted, h.messages⟩ rfl rfl (hw w rfl)
    | paused h hin hd =>
      rw [hin]
      exact .paused ⟨h.setup, h.registry, h.files, h.interrupted, h.messages⟩ rfl hd
  · rintro n given f st ⟨y', h, hsame⟩
    cases h with
    | same h =>
      rw [hsame, proceed_faults]
      exact fail_beside h f
  · rintro n given e st ⟨y', h, hsame⟩ hlast
    cases h with
    | same h =>
      rw [hsame, proceed_ends hlast]
      exact finish_beside h e
  · rintro n given x name err st ⟨y', h, hsame⟩ hx hm
    cases h with
    | same h =>
      rw [hsame, proceed_of_unfound hx (h.setup ▸ hm)]
      exact finish_beside (h.installMissing name) _
  · rintro n given x name m st ⟨y', h, hsame⟩ hx hm
    cases h with
    | @same _ _ st' h =>
      have hagain := (h.installMissing name).startDebugger source request
      refine ⟨_, attempt_meets hagain source request, hsame.trans ?_⟩
      rw [proceed_of_found hx (h.setup ▸ hm)]
      exact congrArg (proceed source _ · n _ _) hagain.files.symm

/-! ## Moves -/

theorem resume_beside (h : Alike s₀ sd sp) (retries : Nat) (files : List (String × String))
    (stdin : List String) (w w' : Wait) {d : Dialogue (Except Exit Value)}
    (hd : d.Emits Event.IsOutput) :
    Beside s₀ source request
      (sd.resume ⟨source, request.withMode .debug, retries, files, stdin, w⟩ d)
      (sp.resume ⟨source, request.withMode .plain, retries, files, stdin, w'⟩ d) :=
  proceed_beside files retries (converse_meets files hd h rfl)

variable {pd pp : Progress}

theorem isPaused_of_plain {f : Flight} (hf : s.flight = some f) (hw : f.wait.IsPlain) :
    Progress.isPaused ⟨s, none⟩ = false := by
  obtain ⟨_, _, _, _, _, w⟩ := f
  unfold Progress.isPaused
  rw [hf]
  cases w with
  | debug resume => exact absurd hw id
  | input resume => rfl
  | sleep duration resume => rfl

/-- A reply to a pause is a move of the run that is debugged, any other is a move of both. -/
theorem move_beside (h : Beside s₀ source request pd pp) {v : Move} (hv : v.isReply = true) :
    Beside s₀ source request (pd.move v) (if pd.isPaused then pp else pp.move v) := by
  cases h with
  | ended h => exact .ended h
  | @waits sd sp retries files stdin w h hd hp hplain =>
    have hmoved := move_cases hd v
    rw [isPaused_of_plain hd hplain, if_neg Bool.false_ne_true]
    generalize Progress.move ⟨sd, none⟩ v = p at hmoved
    cases hmoved with
    | ignored hignored =>
      rw [heeds_waiting hd] at hignored
      rw [Progress.move_ignored ((heeds_waiting hp v).trans hignored)]
      exact .waits h hd hp hplain
    | files provided => cases hv
    | interrupt => cases hv
    | line hw line =>
      cases hw
      rw [move_line hp rfl]
      exact resume_beside (h.enter _ _) _ _ _ _ _ (hplain _)
    | elapse hw =>
      cases hw
      rw [move_elapse hp rfl]
      exact resume_beside h _ _ _ _ _ (hplain _)
    | goOn hw hc =>
      cases hw
      exact absurd hplain id
    | quit hw => cases hv
  | @paused sd sp retries files stdin resume h hd hgo =>
    have hpaused : Progress.isPaused ⟨sd, none⟩ = true := by
      unfold Progress.isPaused
      rw [hd]
    have hmoved := move_cases hd v
    rw [hpaused, if_pos rfl]
    generalize Progress.move ⟨sd, none⟩ v = p at hmoved
    cases hmoved with
    | ignored hignored => exact .paused h hd hgo
    | files provided => cases hv
    | interrupt => cases hv
    | line hw line => cases hw
    | elapse hw => cases hw
    | @goOn resume' hw c d hc =>
      cases hw
      -- whatever the answer is, the debugger is all that it changes
      have hrunning := h.adds (adds_enter .running) (.refl sp) rfl
      have halike : Alike s₀ { sd.enter .running with debugger := d } sp :=
        ⟨hrunning.setup, hrunning.registry, hrunning.files, hrunning.interrupted, hrunning.messages⟩
      exact resume_beside halike _ _ _ _ _ hgo
    | quit hw => cases hv

/-- The line that a move enters is a line for the plain run too; a reply to a pause enters none. -/
theorem takes_beside (h : Beside s₀ source request pd pp) (v : Move) :
    pd.takes v = if pd.isPaused then [] else pp.takes v := by
  cases h with
  | ended h => rfl
  | @waits sd sp retries files stdin w h hd hp hw =>
    unfold Progress.takes Progress.isPaused
    rw [hd, hp]
    cases w with
    | debug resume => exact absurd hw id
    | sleep duration resume => rfl
    | input resume =>
      cases v with
      | command c => cases c <;> rfl
      | elapse => rfl
      | provideFiles files => rfl
  | paused h hd =>
    unfold Progress.takes Progress.isPaused
    rw [hd]
    rfl

theorem play_beside (h : Beside s₀ source request pd pp) {vs : List Move}
    (hvs : ∀ v ∈ vs, v.isReply = true) :
    Beside s₀ source request (pd.play vs) (pp.play (pd.unpaused vs)) ∧
      pp.entered (pd.unpaused vs) = pd.entered vs := by
  induction vs generalizing pd pp with
  | nil => exact ⟨h, rfl⟩
  | cons v vs ih =>
    have hmove := move_beside h (hvs v List.mem_cons_self)
    have htakes := takes_beside h v
    obtain ⟨hplay, hentered⟩ := ih hmove fun v hv => hvs v (List.mem_cons_of_mem _ hv)
    rw [Progress.unpaused, Progress.entered]
    cases hp : pd.isPaused with
    | true =>
      rw [hp] at hplay hentered htakes
      exact ⟨hplay, hentered.trans (by rw [htakes]; rfl)⟩
    | false =>
      rw [hp] at hplay hentered htakes
      exact ⟨hplay, by rw [htakes, ← hentered]; rfl⟩

/-! ## Whole runs -/

theorem opening_alike (s : Session) : Alike s (s.opening .debug) (s.opening .plain) :=
  ⟨rfl, rfl, rfl, rfl, [.start .debug], [], published_opening s .debug, published_opening s .plain,
    rfl⟩

theorem start_beside (s : Session) (source : SourceUnit) (request : RunRequest) :
    Beside s source request (s.start source (request.withMode .debug))
      (s.start source (request.withMode .plain)) := by
  have hopening := opening_alike s
  have hstarted : Alike s ((s.opening .debug).startDebugger source (request.withMode .debug))
      ((s.opening .plain).startDebugger source (request.withMode .plain)) :=
    ⟨hopening.setup, hopening.registry, hopening.files, hopening.interrupted, hopening.messages⟩
  rw [start_eq, start_eq]
  refine proceed_beside _ 1 ?_
  exact attempt_meets hstarted source request

end Session

open Session in
/-- A run that is debugged, whose pauses are answered with steps or by going on, and the plain run
with the same lines come to the same result and leave the same modules, and apart from `start`,
which names the mode, and messages about pauses they publish the same messages. -/
theorem debug_transparent (s : Session) (request : RunRequest) (pd : Progress)
    (hd : s.run (request.withMode .debug) = .ok pd) (vs : List Move)
    (hvs : ∀ v ∈ vs, v.isReply = true) (hend : (pd.play vs).isPaused = false) :
    ∃ pp, s.run (request.withMode .plain) = .ok pp ∧
      pp.entered (pd.unpaused vs) = pd.entered vs ∧
      (pp.play (pd.unpaused vs)).result = (pd.play vs).result ∧
      (pp.play (pd.unpaused vs)).session.registry = (pd.play vs).session.registry ∧
      ∃ ms, (s.published (pd.play vs).session).filter Message.isPlain = .start .debug :: ms ∧
        s.published (pp.play (pd.unpaused vs)).session = .start .plain :: ms := by
  obtain ⟨pp, hp⟩ : ∃ pp, s.run (request.withMode .plain) = .ok pp := by
    unfold run at hd ⊢
    split at hd
    · cases hd
    · rw [show (request.withMode .plain).source = request.source from rfl]
      cases request.source <;> exact ⟨_, rfl⟩
  have hstart := start_beside { s with source := s.sourceFor request } (s.sourceFor request) request
  have hpd : pd = { s with source := s.sourceFor request }.start (s.sourceFor request)
    (request.withMode .debug) := run_eq hd
  have hpp : pp = { s with source := s.sourceFor request }.start (s.sourceFor request)
    (request.withMode .plain) := run_eq hp
  rw [← hpd, ← hpp] at hstart
  obtain ⟨hplay, hentered⟩ := play_beside hstart hvs
  refine ⟨pp, hp, hentered, ?_⟩
  generalize pd.play vs = qd at hplay hend
  generalize pp.play (pd.unpaused vs) = qp at hplay
  have shown {sd sp : Session} (h : Alike { s with source := s.sourceFor request } sd sp) :
      ∃ ms, (s.published sd).filter Message.isPlain = .start .debug :: ms ∧
        s.published sp = .start .plain :: ms := by
    obtain ⟨md, ms, hmd, hmp, hms⟩ := h.messages
    refine ⟨ms.reverse, ?_, ?_⟩
    · rw [show s.published sd = md.reverse from hmd.eq, List.filter_reverse, hms]
      simp
    · rw [show s.published sp = (ms ++ [Message.start .plain]).reverse from hmp.eq]
      simp
  cases hplay with
  | ended h => exact ⟨rfl, h.registry.symm, shown h⟩
  | waits h _ _ _ => exact ⟨rfl, h.registry.symm, shown h⟩
  | paused h hflight =>
    unfold Progress.isPaused at hend
    rw [hflight] at hend
    cases hend

namespace Transparency

open RunClosing (session)

/-- There is a breakpoint on the only line. -/
def request : RunRequest := ⟨some "(input)", none, .plain, [1], []⟩

/-- The run waits before its only line. -/
def paused : Progress :=
  { session with source := session.source.replace "(input)" "main.scm" }.start
    (session.source.replace "(input)" "main.scm") (request.withMode .debug)

/-- The debugger steps, then the line is entered. -/
def replies : List Move := [.command (.debug .step), .command (.input "a")]

theorem debug_transparent_input : paused.isPaused = true ∧ ∃ pp ms,
    session.run (request.withMode .plain) = .ok pp ∧
      (pp.play (paused.unpaused replies)).result = (paused.play replies).result ∧
      (session.published (paused.play replies).session).filter Message.isPlain =
        .start .debug :: ms ∧
      session.published (pp.play (paused.unpaused replies)).session = .start .plain :: ms := by
  have hpaused : paused.isPaused = true := by decide +kernel
  have hend : (paused.play replies).isPaused = false := by decide +kernel
  have hreplies : ∀ v ∈ replies, v.isReply = true := by simp [replies, Move.isReply]
  obtain ⟨pp, hp, -, hresult, -, ms, hd, hplain⟩ :=
    debug_transparent session request paused rfl replies hreplies hend
  exact ⟨hpaused, pp, ms, hp, hresult, hd, hplain⟩

end Transparency
end Lispbox
