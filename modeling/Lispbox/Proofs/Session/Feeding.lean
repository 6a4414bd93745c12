import Lispbox.Proofs.Session.Interrupts
import Lispbox.Proofs.Session.Retries

/-!
# Lines ahead and lines on demand

The lines that a script asks for are those of the request, or they are entered while the run is
suspended (`Progress.feeding`). A run that has some of its lines still to come is compared with the
run that has them all from the start.

Between the questions for lines the two are `Twin` sessions, and the lines that the first one lacks
are the last ones that the other one has (`Parts.same`). Where the first run is suspended for want
of a line the other one does not wait; it is where the first one will be with that line
(`Trails.ahead`). Once the line is entered they are at one place again (`supply_abreast`). Only a
run that is started again with a new module is different, as the lines of the request are all that
is there again (`Abreast.again`).

* `converse_parts`: a conversation with few lines and with all of them.
* `move_trails`: a move of both runs.
* `feeding_abreast`: whole runs.
-/
namespace Lispbox

/-- The request with other lines. -/
def RunRequest.withStdin (r : RunRequest) (lines : List String) : RunRequest :=
  { r with stdin := lines }

namespace Progress

/-- The run waits for a line. -/
def isSuspended (p : Progress) : Bool :=
  match p.result, p.session.flight with
  | none, some ⟨_, _, _, _, _, .input _⟩ => true
  | _, _ => false

/-- The lines are entered, one by one, as long as the run is suspended. -/
def supply (p : Progress) : List String → List Move
  | [] => []
  | line :: rest =>
    if p.isSuspended then
      .command (.input line) :: (p.move (.command (.input line))).supply rest
    else []

/-- The moves are made, and whenever the run is suspended the next of the lines is entered. -/
def feeding (p : Progress) (lines : List String) : List Move → List Move
  | [] => p.supply lines
  | v :: vs =>
    p.supply lines ++ v ::
      ((p.play (p.supply lines)).move v).feeding (lines.drop (p.supply lines).length) vs

variable {p : Progress} {lines : List String}

theorem feeding_nil (p : Progress) (vs : List Move) : p.feeding [] vs = vs := by
  induction vs generalizing p with
  | nil => rfl
  | cons v vs ih => exact congrArg (v :: ·) (ih _)

/-! ## The lines that are entered -/

theorem takes_of_suspended (h : p.isSuspended = true) (line : String) :
    p.takes (.command (.input line)) = [line] := by
  unfold isSuspended at h
  unfold takes
  split at h
  · next hr hf => rw [hr, hf]
  · cases h

theorem takes_of_not_suspended (h : p.isSuspended = false) (v : Move) : p.takes v = [] := by
  unfold isSuspended at h
  unfold takes
  split
  · next hr hf =>
    rw [hr, hf] at h
    cases h
  · rfl

theorem entered_append (p : Progress) (vs ws : List Move) :
    p.entered (vs ++ ws) = p.entered vs ++ (p.play vs).entered ws := by
  induction vs generalizing p with
  | nil => rfl
  | cons v vs ih =>
    rw [List.cons_append, entered, entered, ih, List.append_assoc]
    rfl

/-- The lines that are supplied are entered. -/
theorem entered_supply (p : Progress) (lines : List String) :
    p.entered (p.supply lines) ++ lines.drop (p.supply lines).length = lines := by
  induction lines generalizing p with
  | nil => rfl
  | cons line rest ih =>
    unfold supply
    split
    · next h =>
      rw [entered, takes_of_suspended h, List.length_cons, List.drop_succ_cons, List.append_assoc,
        ih]
      rfl
    · rfl

/-- If the run is still suspended, there are no more lines. -/
theorem supply_suspended (h : (p.play (p.supply lines)).isSuspended = true) :
    lines.drop (p.supply lines).length = [] := by
  induction lines generalizing p with
  | nil => rfl
  | cons line rest ih =>
    unfold supply at h ⊢
    split
    · next hp =>
      rw [if_pos hp] at h
      exact ih h
    · next hp =>
      rw [if_neg hp] at h
      exact absurd h hp

/-- The lines that are entered at first are those that the run is fed with. -/
theorem entered_feeding (p : Progress) (lines : List String) (vs : List Move) :
    p.entered (p.feeding lines vs) <+: lines ∨ lines <+: p.entered (p.feeding lines vs) := by
  induction vs generalizing p lines with
  | nil =>
    have hentered := entered_supply p lines
    exact .inl ⟨_, hentered⟩
  | cons v vs ih =>
    have hentered := entered_supply p lines
    have hmore := ih ((p.play (p.supply lines)).move v) (lines.drop (p.supply lines).length)
    rw [feeding, entered_append, entered]
    cases hs : (p.play (p.supply lines)).isSuspended with
    | true =>
      rw [supply_suspended hs, List.append_nil] at hentered
      rw [hentered]
      exact .inr (List.prefix_append _ _)
    | false =>
      rw [takes_of_not_suspended hs v, List.nil_append]
      generalize lines.drop (p.supply lines).length = rest at hentered hmore ⊢
      rcases hmore with hmore | hmore
      · have hprefix := (List.prefix_append_right_inj (p.entered (p.supply lines))).mpr hmore
        rw [hentered] at hprefix
        exact .inl hprefix
      · have hprefix := (List.prefix_append_right_inj (p.entered (p.supply lines))).mpr hmore
        rw [hentered] at hprefix
        exact .inr hprefix

end Progress

namespace Session

variable {s t u x y : Session} {mode : RunMode} {files : List (String × String)}
  {rest : List String} {source : SourceUnit} {request : RunRequest}

/-! ## Conversations -/

/-- Questions for anything but a line are answered whatever lines there are, and leave them. -/
theorem react_lines (debugging : Bool) (files : List (String × String)) {q : Query}
    (hq : s.interrupted = true ∨ ∀ prompt, q ≠ .input prompt) (lines : List String) :
    (Stage.mk s lines).react debugging files q =
      (((Stage.mk s []).react debugging files q).1,
        ⟨((Stage.mk s []).react debugging files q).2.session, lines⟩) := by
  unfold Stage.react
  dsimp only
  split
  · rfl
  · next hstop =>
    cases q with
    | poll => rfl
    | readFile name => rfl
    | line file n =>
      unfold Stage.attend
      dsimp only
      split
      · rfl
      · split <;> rfl
    | emit o =>
      unfold Stage.attend
      dsimp only
      split <;> rfl
    | sleep duration =>
      unfold Stage.attend
      dsimp only
      split <;> rfl
    | input prompt =>
      rcases hq with hi | hq
      · rw [hi] at hstop
        exact absurd rfl hstop
      · exact absurd rfl (hq prompt)

/-- A run waits for a line only at a question for one. -/
theorem react_suspends {debugging : Bool} {st st' : Stage} {q : Query}
    {w : (Except Signal q.Answer → Dialogue (Except Exit Value)) → Wait}
    (hr : st.react debugging files q = (.wait w, st'))
    {resume : Except Signal q.Answer → Dialogue (Except Exit Value)}
    {entered : Except Signal String → Dialogue (Except Exit Value)}
    (hw : w resume = .input entered) :
    st.session.interrupted = false ∧ ∃ prompt, q = .input prompt := by
  cases hi : st.session.interrupted with
  | true =>
    unfold Stage.react at hr
    rw [hi] at hr
    cases q <;> cases hr
  | false =>
    have hheard := heard_react debugging files hi q
    rw [hr] at hheard
    obtain ⟨⟨shown, -, hfor⟩, -⟩ := hheard
    have hinput := hfor resume
    rw [hw] at hinput
    cases hinput
    exact ⟨rfl, _, rfl⟩

/-- A session that is not interrupted publishes the question for a line, and answers it with the
next one. -/
theorem react_line (hi : s.interrupted = false) (debugging : Bool)
    (files : List (String × String)) (prompt line : String) (rest : List String) :
    (Stage.mk s (line :: rest)).react debugging files (.input prompt) =
      (.reply (.ok line), ⟨(s.deliver (.inputRequest prompt)).2, rest⟩) := by
  unfold Stage.react
  rw [hi]
  rfl

/-- Without a line it is suspended until one is entered. -/
theorem react_unfed (hi : s.interrupted = false) (debugging : Bool)
    (files : List (String × String)) (prompt : String) :
    (Stage.mk s []).react debugging files (.input prompt) =
      (.wait .input, ⟨(s.deliver (.inputRequest prompt)).2.enter .suspended, []⟩) := by
  unfold Stage.react
  rw [hi]
  rfl

/-- Where a conversation with few lines halts, and where it does with the rest of the lines: there
too, or wherever it comes to with the next line. -/
inductive Parts (t u : Session) (mode : RunMode) (files : List (String × String))
    (rest : List String) : Halt × Stage → Halt × Stage → Prop where
  | same {halt : Halt} {a b : Stage} (h : Twin t u mode a.session b.session)
    (hin : b.stdin = a.stdin ++ rest) (hw : ∀ resume, halt = .waits (.input resume) → rest = []) :
    Parts t u mode files rest (halt, a) (halt, b)
  | short {resume : Except Signal String → Dialogue (Except Exit Value)} {line : String}
    {a b : Stage} (h : Twin t u mode a.session b.session) (hu : u.Quiet b.session)
    (hin : a.stdin = []) (hrest : rest = line :: b.stdin) :
    Parts t u mode files rest (.waits (.input resume), a)
      (converse (mode == .debug) files (resume (.ok line)) b)

theorem converse_parts (h : Twin t u mode x y) (hu : u.Quiet y) (files : List (String × String))
    (stdin rest : List String) (d : Dialogue (Except Exit Value)) :
    Parts t u mode files rest (converse (mode == .debug) files d ⟨x, stdin⟩)
      (converse (mode == .debug) files d ⟨y, stdin ++ rest⟩) := by
  have last {x y : Session} (h : Twin t u mode x y) (stdin : List String) (e : RunEnd) :
      Parts t u mode files rest (x.haltOf e, ⟨x, stdin⟩) (y.haltOf e, ⟨y, stdin ++ rest⟩) := by
    have hsame : y.haltOf e = x.haltOf e := by
      unfold haltOf
      rw [h.interrupted]
    rw [hsame]
    exact .same h rfl fun resume hw => absurd hw (haltOf_over x e _)
  induction d generalizing x y stdin with
  | done r m => exact last h _ _
  | abort e m => exact last h _ _
  | ask m q resume ih =>
    by_cases hq : x.interrupted = false ∧ ∃ prompt, q = .input prompt
    · obtain ⟨hi, prompt, rfl⟩ := hq
      have hasked := (h.deliver (.inputRequest prompt)).2
      have hquiet := hu.trans (unaided.deliver (.inputRequest prompt)).quiet
      have hi' : y.interrupted = false := h.interrupted.trans hi
      rw [converse, converse]
      cases stdin with
      | cons line stdin =>
        rw [List.cons_append, react_line hi, react_line hi']
        exact ih (.ok line) hasked hquiet stdin
      | nil =>
        rw [List.nil_append, react_unfed hi]
        cases rest with
        | nil =>
          rw [react_unfed hi']
          exact .same (hasked.enter _ _) rfl fun _ _ => rfl
        | cons line rest =>
          rw [react_line hi']
          refine .short (b := ⟨(y.deliver (.inputRequest prompt)).2, rest⟩) ?_ hquiet rfl rfl
          refine hasked.adds (adds_enter _) (.refl _) fun hmode => ?_
          rw [debugger_enter, hasked.debugger hmode]
    · have hx : x.interrupted = true ∨ ∀ prompt, q ≠ .input prompt := by
        cases hi : x.interrupted with
        | true => exact .inl rfl
        | false => exact .inr fun prompt hprompt => hq ⟨hi, prompt, hprompt⟩
      have hfew := react_lines (mode == .debug) files hx stdin
      have hall := react_lines (mode == .debug) files (h.interrupted.symm ▸ hx) (stdin ++ rest)
      have hreact := react_twin (a := ⟨x, []⟩) (b := ⟨y, []⟩) ⟨h, rfl⟩ files q
      have hquiet := hu.trans (unaided.react (mode == .debug) files ⟨y, []⟩ q).quiet
      rw [converse, converse, hfew, hall]
      cases ha : (Stage.mk x []).react (mode == .debug) files q with
      | mk r a =>
        cases hb : (Stage.mk y []).react (mode == .debug) files q with
        | mk r' b =>
          rw [ha, hb] at hreact
          rw [hb] at hquiet
          obtain ⟨hsame, hnext, -⟩ := hreact
          obtain rfl : r' = r := hsame
          cases r' with
          | reply answer => exact ih answer hnext hquiet stdin
          | wait w =>
            refine .same (a := ⟨a.session, stdin⟩) (b := ⟨b.session, stdin ++ rest⟩) hnext rfl ?_
            intro entered hw
            exact absurd (react_suspends ha (Halt.waits.inj hw)) hq
          | fault e =>
            refine .same (a := ⟨a.session, stdin⟩) (b := ⟨b.session, stdin ++ rest⟩) hnext rfl ?_
            intro entered hw
            cases hw

/-! ## Modules that are not found -/

/-- The resolver had none of the modules that it was asked for. -/
structure Unfound (s s' : Session) : Prop where
  grows : s.Grows s'
  unfound : ∀ name m, s.setup.resolver.resolve name = .ok m → .resolve name ∉ s.since s'

theorem Quiet.unfound (h : s.Quiet x) : s.Unfound x :=
  ⟨h.grows, fun name _ _ => h.resolve_not_mem name⟩

theorem Unfound.quiet (h : s.Unfound x) (hq : x.Quiet y) : s.Unfound y := by
  refine ⟨h.grows.trans hq.grows, fun name m hm hmem => ?_⟩
  rw [h.grows.since hq.grows, List.mem_append] at hmem
  exact hmem.elim (h.unfound name m hm) (hq.resolve_not_mem name)

theorem Unfound.asking (h : s.Unfound x) {name : String}
    (hname : ∀ m, s.setup.resolver.resolve name ≠ .ok m) : s.Unfound (x.asking name) := by
  have hnotices : (x.asking name).notices =
      [.resolve name, .publish (.loading [name] .loading)] ++ x.notices := rfl
  have hgrows : x.Grows (x.asking name) := ⟨_, hnotices.symm⟩
  have hnew : x.since (x.asking name) = [.publish (.loading [name] .loading), .resolve name] :=
    since_eq hnotices
  refine ⟨h.grows.trans hgrows, fun name' m hm hmem => ?_⟩
  rw [h.grows.since hgrows, hnew, List.mem_append] at hmem
  rcases hmem with hmem | hmem
  · exact h.unfound name' m hm hmem
  · simp only [List.mem_cons, List.not_mem_nil, or_false, reduceCtorEq, false_or] at hmem
    cases hmem
    exact hname m hm

/-- A first attempt that ends for want of a module has the resolver asked for it. -/
theorem resolve_asked {st : Stage} (h : s.Quiet st.session) (source : SourceUnit)
    (request : RunRequest) {e : Exception} {name : String} (he : e.missingModule = some name)
    (files : List (String × String)) :
    let p := proceed source request files 1 (.ends (.raised e)) st
    s.Grows p.session ∧ .resolve name ∈ s.since p.session := by
  have hasking : s.Grows (st.session.asking name) := h.grows.trans ⟨[_, _], rfl⟩
  have hgrows := asking_grows source request he files st
  have hasked : (st.session.asking name).asked = [name] ++ s.asked := congrArg (name :: ·) h.asked
  refine ⟨hasking.trans hgrows, ?_⟩
  rw [hasking.since hgrows, List.mem_append]
  exact .inl ((resolve_mem_since hasking).mpr ⟨[name], hasked, List.mem_singleton.mpr rfl⟩)

/-! ## Two runs -/

/-- Two runs at one place, the first of which lacks the rest of the lines. -/
inductive Abreast (t s : Session) (source : SourceUnit) (request : RunRequest)
    (few all rest : List String) : Progress → Progress → Prop where
  | waits {x y : Session} (h : Twin t s request.mode x y) (hx : s.Quiet x) (hy : s.Quiet y)
    {files : List (String × String)} {stdin : List String} {w : Wait}
    (hfx : x.flight = some ⟨source, request.withStdin few, 1, files, stdin, w⟩)
    (hfy : y.flight = some ⟨source, request.withStdin all, 1, files, stdin ++ rest, w⟩)
    (hw : ∀ resume, w = .input resume → rest = []) :
    Abreast t s source request few all rest ⟨x, none⟩ ⟨y, none⟩
  | ended {x y : Session} {r : Except RunFault Outcome} {ms : List Message}
    (hmx : t.Published x ms) (hmy : s.Published y (ms ++ [.start request.mode]))
    (hx : s.Unfound x) (hy : s.Unfound y) :
    Abreast t s source request few all rest ⟨x, some r⟩ ⟨y, some r⟩
  /-- Both were started again. -/
  | again {px py : Progress} {name : String} {m : Module}
    (hm : s.setup.resolver.resolve name = .ok m) (hgx : s.Grows px.session)
    (hgy : s.Grows py.session) (hx : .resolve name ∈ s.since px.session)
    (hy : .resolve name ∈ s.since py.session) : Abreast t s source request few all rest px py

/-- Two runs at one place, or the first one waits for a line that the other one has. -/
inductive Trails (t s : Session) (source : SourceUnit) (request : RunRequest)
    (few all rest : List String) : Progress → Progress → Prop where
  | level {px py : Progress} (h : Abreast t s source request few all rest px py) :
    Trails t s source request few all rest px py
  | ahead {x y : Session} (h : Twin t s request.mode x y) (hx : s.Quiet x) (hy : s.Quiet y)
    {files : List (String × String)} {line : String} {stdin : List String} {w : Wait}
    {resume : Except Signal String → Dialogue (Except Exit Value)}
    (hf : x.flight = some ⟨source, request.withStdin few, 1, files, [], .input resume⟩)
    (hrest : rest = line :: stdin) :
    Trails t s source request few all rest ⟨x, none⟩
      (y.resume ⟨source, request.withStdin all, 1, files, stdin, w⟩ (resume (.ok line)))

variable {few all : List String} {px py : Progress}

theorem finish_abreast (h : Twin t s request.mode x y) (hx : s.Unfound x) (hy : s.Unfound y)
    (e : AttemptEnd) :
    Abreast t s source request few all rest (x.finish source e) (y.finish source e) := by
  have hvx := hx.quiet (unaided.finish source e).quiet
  have hvy := hy.quiet (unaided.finish source e).quiet
  have closed {m : Message} {next : ExecutionState} {o : Outcome}
      (hvx : s.Unfound (x.close m next o).session) (hvy : s.Unfound (y.close m next o).session) :
      Abreast t s source request few all rest (x.close m next o) (y.close m next o) := by
    obtain ⟨ms, hmx, hmy⟩ := ((h.publish m).enter next next).messages
    exact .ended hmx hmy hvx hvy
  cases e with
  | raised e =>
    simp only [finish, h.setup.explainer] at hvx hvy ⊢
    exact closed hvx hvy
  | compileFailed e => exact closed hvx hvy
  | completed v => exact closed hvx hvy
  | interrupted => exact closed hvx hvy
  | quit => exact closed hvx hvy

theorem fail_abreast (h : Twin t s request.mode x y) (hx : s.Unfound x) (hy : s.Unfound y)
    (f : RunFault) : Abreast t s source request few all rest (x.fail f) (y.fail f) := by
  obtain ⟨ms, hmx, hmy⟩ := (h.enter .errored .errored).messages
  exact .ended hmx hmy (hx.quiet (unaided.fail f).quiet) (hy.quiet (unaided.fail f).quiet)

/-- Two attempts end alike: for want of a module that is found, or the runs are over. -/
theorem ended_abreast {a b : Stage} (h : Twin t s request.mode a.session b.session)
    (hx : s.Quiet a.session) (hy : s.Quiet b.session) (files : List (String × String))
    (e : AttemptEnd) : Abreast t s source request few all rest
      (proceed source (request.withStdin few) files 1 (.ends e) a)
      (proceed source (request.withStdin all) files 1 (.ends e) b) := by
  rcases proceed_ends_cases e with hlast | ⟨e, name, rfl, he⟩
  · rw [hlast, hlast]
    exact finish_abreast h hx.unfound hy.unfound e
  · cases hm : s.setup.resolver.resolve name with
    | ok m =>
      obtain ⟨hgx, hmemx⟩ := resolve_asked hx source (request.withStdin few) he files
      obtain ⟨hgy, hmemy⟩ := resolve_asked hy source (request.withStdin all) he files
      exact .again hm hgx hgy hmemx hmemy
    | error err =>
      have hname : ∀ m, s.setup.resolver.resolve name ≠ .ok m := by
        intro m hfound
        rw [hm] at hfound
        cases hfound
      have hasked : Twin t s request.mode (a.session.asking name) (b.session.asking name) :=
        (h.publish _).adds (adds_note _) (adds_note _) h.debugger
      have hmx : a.session.setup.resolver.resolve name = .error err := hx.setup ▸ hm
      have hmy : b.session.setup.resolver.resolve name = .error err := hy.setup ▸ hm
      rw [proceed_of_unfound he hmx, proceed_of_unfound he hmy, installMissing_of_error hmx,
        installMissing_of_error hmy]
      exact finish_abreast (hasked.publish _)
        ((hx.unfound.asking hname).quiet (quiet_publish _))
        ((hy.unfound.asking hname).quiet (quiet_publish _)) _

theorem proceed_trails {files : List (String × String)} {a b : Halt × Stage}
    (h : Parts t s request.mode files rest a b) (hx : s.Quiet a.2.session)
    (hy : s.Quiet b.2.session) : Trails t s source request few all rest
      (proceed source (request.withStdin few) files 1 a.1 a.2)
      (proceed source (request.withStdin all) files 1 b.1 b.2) := by
  cases h with
  | @same halt a b h hin hw =>
    refine .level ?_
    cases halt with
    | waits w =>
      refine .waits (x := { a.session with flight := _ }) (y := { b.session with flight := _ })
        ?_ (hx.trans (.of_eq rfl rfl)) (hy.trans (.of_eq rfl rfl)) rfl ?_ ?_
      · exact ⟨h.setup, h.registry, h.files, h.interrupted, h.debugger, h.messages⟩
      · rw [hin]
      · exact fun resume hr => hw resume (congrArg Halt.waits hr)
    | faults f => exact fail_abreast h hx.unfound hy.unfound f
    | ends e => exact ended_abreast h hx hy files e
  | @short resume line a b h hu hin hrest =>
    obtain ⟨x, lines⟩ := a
    obtain rfl : lines = [] := hin
    have hwaiting : s.Quiet { x with
        flight := some ⟨source, request.withStdin few, 1, files, [], .input resume⟩ } :=
      hx.trans (.of_eq rfl rfl)
    have htwin : Twin t s request.mode { x with
        flight := some ⟨source, request.withStdin few, 1, files, [], .input resume⟩ } b.session :=
      ⟨h.setup, h.registry, h.files, h.interrupted, h.debugger, h.messages⟩
    have hahead : Trails t s source request few all rest _ (b.session.resume
        ⟨source, request.withStdin all, 1, files, b.stdin, .input resume⟩ (resume (.ok line))) :=
      .ahead htwin hwaiting hu rfl hrest
    exact hahead

/-! ## Moves -/

theorem resume_trails (h : Twin t s request.mode x y) (hx : s.Quiet x) (hy : s.Quiet y)
    (files : List (String × String)) (stdin : List String) (w w' : Wait)
    (d : Dialogue (Except Exit Value)) : Trails t s source request few all rest
      (x.resume ⟨source, request.withStdin few, 1, files, stdin, w⟩ d)
      (y.resume ⟨source, request.withStdin all, 1, files, stdin ++ rest, w'⟩ d) :=
  proceed_trails (converse_parts h hy files stdin rest d)
    (hx.trans (unaided.converse _ files d ⟨x, stdin⟩).quiet)
    (hy.trans (unaided.converse _ files d ⟨y, stdin ++ rest⟩).quiet)

/-- A move of both runs. -/
theorem move_trails (h : Abreast t s source request few all rest px py) (v : Move) :
    Trails t s source request few all rest (px.move v) (py.move v) := by
  cases h with
  | ended hmx hmy hx hy => exact .level (.ended hmx hmy hx hy)
  | again hm hgx hgy hx hy =>
    have hmx := (works.move px v).grows
    have hmy := (works.move py v).grows
    refine .level (.again hm (hgx.trans hmx) (hgy.trans hmy) ?_ ?_)
    · rw [hgx.since hmx]
      exact List.mem_append_left _ hx
    · rw [hgy.since hmy]
      exact List.mem_append_left _ hy
  | @waits x y h hx hy files stdin w hfx hfy hw =>
    have hrunning := h.enter .running .running
    have hrx := hx.trans (quiet_enter .running)
    have hry := hy.trans (quiet_enter .running)
    have hmoved := move_cases hfx v
    generalize Progress.move ⟨x, none⟩ v = px at hmoved
    cases hmoved with
    | ignored hheeds =>
      rw [heeds_waiting hfx, ← heeds_waiting (f := ⟨_, _, _, _, _, w⟩) hfy] at hheeds
      rw [Progress.move_ignored hheeds]
      exact .level (.waits h hx hy hfx hfy hw)
    | files provided =>
      refine .level (.waits (x := x.provideFiles provided) (y := y.provideFiles provided) ?_
        (hx.trans (.of_eq rfl rfl)) (hy.trans (.of_eq rfl rfl)) hfx hfy hw)
      exact ⟨h.setup, h.registry, rfl, h.interrupted, h.debugger, h.messages⟩
    | interrupt =>
      rw [move_interrupt hfy]
      exact resume_trails (h.interrupt true) (hx.trans (.of_eq rfl rfl))
        (hy.trans (.of_eq rfl rfl)) _ _ _ _ _
    | line hwait line =>
      rw [move_line hfy hwait]
      exact resume_trails hrunning hrx hry _ _ _ _ _
    | elapse hwait =>
      rw [move_elapse hfy hwait]
      exact resume_trails h hx hy _ _ _ _ _
    | @goOn _ hwait c d hc =>
      obtain ⟨d', hc', hd⟩ : ∃ d', (y.enter .running).debugger.resume c = some d' ∧
          (request.mode = .debug → d' = d) := by
        cases c with
        | quit => cases hc
        | continue_ | step =>
          refine ⟨_, rfl, fun hmode => ?_⟩
          rw [hrunning.debugger hmode]
          exact Option.some.inj hc
      rw [move_goOn hfy hwait hc']
      exact resume_trails (hrunning.withDebuggers hd) (hrx.trans (.of_eq rfl rfl))
        (hry.trans (.of_eq rfl rfl)) _ _ _ _ _
    | quit hwait =>
      rw [move_quit hfy hwait]
      have hstopped : Twin t s request.mode { x.enter .running with debugger := .inactive }
          { y.enter .running with debugger := .inactive } := hrunning.withDebuggers fun _ => rfl
      exact resume_trails hstopped (hrx.trans (.of_eq rfl rfl)) (hry.trans (.of_eq rfl rfl))
        _ _ _ _ _

theorem suspended_of_input {f : Flight} (hf : s.flight = some f) :
    Progress.isSuspended ⟨s, none⟩ = true ↔ ∃ resume, f.wait = .input resume := by
  unfold Progress.isSuspended
  rw [hf]
  obtain ⟨_, _, _, _, _, w⟩ := f
  cases w <;> simp

/-- With the lines that are there the first run comes to where the other one is. -/
theorem supply_abreast (h : Trails t s source request few all rest px py) :
    Abreast t s source request few all (rest.drop (px.supply rest).length)
      (px.play (px.supply rest)) py := by
  induction rest generalizing px with
  | nil =>
    cases h with
    | level h => exact h
    | ahead h hx hy hf hrest => cases hrest
  | cons line rest ih =>
    cases h with
    | level h =>
      have stays (hs : px.isSuspended = false) :
          Abreast t s source request few all
            ((line :: rest).drop (px.supply (line :: rest)).length)
            (px.play (px.supply (line :: rest))) py := by
        unfold Progress.supply
        rw [hs]
        exact h
      cases h with
      | ended hmx hmy hx hy => exact stays rfl
      | waits h hx hy hfx hfy hw =>
        refine stays (Bool.eq_false_iff.mpr fun hs => ?_)
        obtain ⟨resume, hwait⟩ := (suspended_of_input hfx).mp hs
        cases hw resume hwait
      | again hm hgx hgy hx hy =>
        have hplay := (works.play px (px.supply (line :: rest))).grows
        refine .again hm (hgx.trans hplay) hgy ?_ hy
        rw [hgx.since hplay]
        exact List.mem_append_left _ hx
    | @ahead x y h hx hy files _ stdin w resume hf hrest =>
      obtain ⟨rfl, rfl⟩ := List.cons.inj hrest
      have hrunning : Twin t s request.mode (x.enter .running) y := by
        refine h.adds (adds_enter _) (.refl _) fun hmode => ?_
        rw [debugger_enter, h.debugger hmode]
      have htrails : Trails t s source request few all rest
          (Progress.move ⟨x, none⟩ (.command (.input line)))
          (y.resume ⟨source, request.withStdin all, 1, files, rest, w⟩ (resume (.ok line))) := by
        rw [move_line hf rfl]
        exact resume_trails hrunning (hx.trans (quiet_enter .running)) hy files [] _ _ _
      unfold Progress.supply
      rw [(suspended_of_input hf).mpr ⟨resume, rfl⟩, if_pos rfl]
      exact ih htrails

/-- The run that is fed with lines is where the other one is. -/
theorem feeding_abreast (h : Trails t s source request few all rest px py) (vs : List Move) :
    ∃ left, Abreast t s source request few all left (px.play (px.feeding rest vs))
      (py.play vs) := by
  induction vs generalizing px py rest with
  | nil => exact ⟨_, supply_abreast h⟩
  | cons v vs ih =>
    rw [Progress.feeding, Progress.play_append]
    exact ih (move_trails (supply_abreast h) v)

/-! ## Whole runs -/

/-- Where the first attempt of a run begins. -/
def launched (s : Session) (source : SourceUnit) (request : RunRequest) : Session :=
  (s.opening request.mode).startDebugger source request

theorem published_launched (s : Session) (source : SourceUnit) (request : RunRequest) :
    s.Published (s.launched source request) [.start request.mode] := by
  have hopening := published_opening s request.mode
  unfold launched startDebugger
  split <;> exact hopening

theorem quiet_launched (s : Session) (source : SourceUnit) (request : RunRequest) :
    s.Quiet (s.launched source request) :=
  ((unaided.opening request.mode).trans (unaided.startDebugger source request)).quiet

theorem start_trails (s : Session) (source : SourceUnit) (request : RunRequest)
    (few rest : List String) :
    Trails (s.launched source request) s source request few (few ++ rest) rest
      (s.start source (request.withStdin few))
      (s.start source (request.withStdin (few ++ rest))) := by
  have hquiet := quiet_launched s source request
  have htwin : Twin (s.launched source request) s request.mode (s.launched source request)
      (s.launched source request) :=
    ⟨⟨rfl, rfl, rfl, rfl⟩, rfl, rfl, rfl, fun _ => rfl, [], ⟨[], rfl, rfl⟩,
      published_launched s source request⟩
  have hattempt : Parts (s.launched source request) s request.mode
      (s.launched source request).files rest
      ((s.launched source request).attempt source (request.withStdin few))
      ((s.launched source request).attempt source (request.withStdin (few ++ rest))) := by
    cases hc : compile source.text source.file
        (s.launched source request).setup.config.recursionLimit with
    | error e =>
      rw [attempt_of_error hc, attempt_of_error hc]
      exact .same htwin rfl nofun
    | ok p =>
      have hrunning := (htwin.prefetch p).enter .running .running
      have hfiles : (((s.launched source request).prefetch p).enter .running).files =
          (s.launched source request).files := (files_enter _).trans (files_prefetch p)
      rw [attempt_of_ok hc, attempt_of_ok hc, hfiles]
      exact converse_parts hrunning
        ((hquiet.trans (quiet_prefetch p)).trans (quiet_enter .running)) _ few rest _
  exact proceed_trails hattempt (hquiet.trans (quiet_attempt _ _ _))
    (hquiet.trans (quiet_attempt _ _ _))

/-- Two runs that are abreast have come to the same, or both were started again. -/
theorem Abreast.agree
    (h : Abreast (s.launched source request) s source request few all rest px py) :
    (px.result = py.result ∧ s.published px.session = s.published py.session ∧
      s.Unfound px.session ∧ s.Unfound py.session) ∨
    ∃ name m, s.setup.resolver.resolve name = .ok m ∧ .resolve name ∈ s.since px.session ∧
      .resolve name ∈ s.since py.session := by
  have same {x y : Session} {ms : List Message} (hx : (s.launched source request).Published x ms)
      (hy : s.Published y (ms ++ [.start request.mode])) : s.published x = s.published y := by
    rw [((published_launched s source request).trans hx).eq, hy.eq]
  cases h with
  | waits h hx hy hfx hfy hw =>
    obtain ⟨ms, hmx, hmy⟩ := h.messages
    exact .inl ⟨rfl, same hmx hmy, hx.unfound, hy.unfound⟩
  | ended hmx hmy hx hy => exact .inl ⟨rfl, same hmx hmy, hx, hy⟩
  | again hm hgx hgy hx hy => exact .inr ⟨_, _, hm, hx, hy⟩

end Session
end Lispbox
