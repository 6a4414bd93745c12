import Lispbox.Proofs.Run.Congruence
import Lispbox.Proofs.Story.Erasure

/-!
# Reported lines

A line is reported to the host when a statement is about to be executed, unless the frame reported
the same line last, and when a loop comes back to its condition. To say so of a run takes a memory
of its own for every frame: `seatsAfter` computes from what has happened which frames are active,
each with the report that was made last while it was the innermost one. Bodies that begin and end in
between leave the memory of a frame as it is.

`Happening.Fits` is what is required of a happening after those before it, and every happening of
every story fits (`lines_reported`). The invariant is that the frames of the machine remember what
has happened to them (`Seated`); each function of the evaluator keeps it (`Narrator.Keeps`).
-/
namespace Lispbox

/-- A line is reported from the innermost frame if it is not the one that was reported last. -/
theorem reportLine_eq {m : Machine} {f : Frame} {fs : List Frame} (hf : m.frames = f :: fs)
    (always : Bool) (line : Nat) : reportLine always line m =
      if !always && f.reported == some line then .done (.ok ()) (m.setLine line)
      else Script.ask (.line f.file line) (m.reportFrom line) := by
  have hget (g : Machine → Script Unit) : (Script.get >>= g) m = g m m := rfl
  unfold reportLine
  rw [hget, hf]
  dsimp only
  split <;> rfl

/-! ## What is required -/

/-- An active frame as it can be told from what has happened. -/
structure Seat where
  file : String
  /-- The report that was made last while the frame was the innermost one. -/
  last : Option (String × Nat)

/-- The file and the line that are reported. -/
def Query.report? : Query → Option (String × Nat)
  | .line file number => some (file, number)
  | _ => none

/-- The active frames after a happening. -/
def Happening.turn (seats : List Seat) : Happening → List Seat
  | .mark (.enters file) => ⟨file, none⟩ :: seats
  | .mark .leaves => seats.drop 1
  | .said x =>
    match x.query.report? with
    | some r => seats.modifyHead fun s => { s with last := some r }
    | none => seats
  | _ => seats

/-- The active frames after some happenings, innermost first. -/
def seatsAfter (past : List Happening) : List Seat := past.foldl Happening.turn []

/-- What a frame remembers. -/
def Frame.seat (f : Frame) : Seat := ⟨f.file, f.reported.map fun line => (f.file, line)⟩

/-- What the active frames of a run remember. -/
def Machine.seats (m : Machine) : List Seat := m.frames.map Frame.seat

/-- A statement may begin: its block has just come to it, its line was reported then if it was not
the one that the frame reported last, and now it is. -/
structure StartsFit (past : List Happening) (n : Node) : Prop where
  reported : ∃ s outer, seatsAfter past = s :: outer ∧ s.last = some (s.file, n.line)
  reached : ∃ earlier, past = earlier ++ [.mark (.reaches n)] ∨
    ∃ x, x.query.report?.isSome ∧ past = earlier ++ [.mark (.reaches n), .said x]

/-- The condition of a loop may be evaluated once more: the loop has just come back and reported its
line. -/
def ChecksFit (past : List Happening) (line : Nat) : Prop :=
  ∃ s outer earlier x, seatsAfter past = s :: outer ∧ x.query = .line s.file line ∧
    past = earlier ++ [.mark (.returns line), .said x]

/-- A line may be reported: it is a line of the file of the innermost frame, and a block has just
come to a statement on this line, which the frame did not report last, or a loop on this line has
just come back to its condition. -/
def ReportFits (past : List Happening) (file : String) (line : Nat) : Prop :=
  ∃ s outer earlier, seatsAfter past = s :: outer ∧ s.file = file ∧
    ((∃ n, n.line = line ∧ s.last ≠ some (file, line) ∧
        past = earlier ++ [.mark (.reaches n)]) ∨
      past = earlier ++ [.mark (.returns line)])

/-- What is required of a happening after those before it. When something is said, the active frames
and their last reports are those that the run remembers. -/
def Happening.Fits (past : List Happening) : Happening → Prop
  | .mark (.starts n) => StartsFit past n
  | .mark (.checks line false) => ChecksFit past line
  | .mark _ => True
  | .said x => seatsAfter (past ++ [.said x]) = x.machine.seats ∧
    ∀ file line, x.query = .line file line → ReportFits past file line

@[simp] theorem seatsAfter_snoc (past : List Happening) (x : Happening) :
    seatsAfter (past ++ [x]) = x.turn (seatsAfter past) := by
  simp [seatsAfter]

/-! ## Stories in which everything fits -/

namespace Story

variable {ρ τ σ : Type} {ends ends' : List Happening → ρ → Machine → Prop} {past : List Happening}

/-- On every course everything fits, and the results are as required. -/
def Obeys (ends : List Happening → ρ → Machine → Prop) : List Happening → Story ρ → Prop
  | past, .done r m => ends past r m
  | _, .abort _ _ => True
  | past, .ask m q resume => ∀ a, Happening.Fits past (.said ⟨m, q, a⟩) ∧
    (resume a).Obeys ends (past ++ [.said ⟨m, q, a⟩])
  | past, .mark k rest => Happening.Fits past (.mark k) ∧ rest.Obeys ends (past ++ [.mark k])

theorem Obeys.mono {s : Story ρ} (hs : s.Obeys ends past)
    (h : ∀ past r m, ends past r m → ends' past r m) : s.Obeys ends' past := by
  induction s generalizing past with
  | done r m => exact h _ _ _ hs
  | abort a m => trivial
  | ask m q resume ih => exact fun a => ⟨(hs a).1, ih a (hs a).2⟩
  | mark k rest ih => exact ⟨hs.1, ih hs.2⟩

theorem Obeys.bind {ends : List Happening → τ → Machine → Prop} {s : Story ρ}
    {f : ρ → Machine → Story τ} (hs : s.Obeys (fun past r m => (f r m).Obeys ends past) past) :
    (s.bind f).Obeys ends past := by
  induction s generalizing past with
  | done r m => exact hs
  | abort a m => trivial
  | ask m q resume ih => exact fun a => ⟨(hs a).1, ih a (hs a).2⟩
  | mark k rest ih => exact ⟨hs.1, ih hs.2⟩

/-- Everything that happens in a conversation fits. -/
theorem Obeys.fits {s : Story ρ} (hs : s.Obeys ends past) (h : Host σ) (t : σ)
    {before after : List Happening} {x : Happening}
    (hx : s.happenings h t = before ++ x :: after) : x.Fits (past ++ before) := by
  induction s generalizing past before t with
  | done r m => simp [happenings] at hx
  | abort a m => simp [happenings] at hx
  | ask m q resume ih =>
    rw [happenings] at hx
    obtain ⟨hfits, hrest⟩ := hs (h.reply t q).1
    cases before with
    | nil =>
      obtain ⟨rfl, -⟩ := List.cons.inj hx
      simpa using hfits
    | cons b before =>
      obtain ⟨rfl, hlater⟩ := List.cons.inj hx
      simpa using ih _ hrest _ hlater
  | mark k rest ih =>
    rw [happenings] at hx
    obtain ⟨hfits, hrest⟩ := hs
    cases before with
    | nil =>
      obtain ⟨rfl, -⟩ := List.cons.inj hx
      simpa using hfits
    | cons b before =>
      obtain ⟨rfl, hlater⟩ := List.cons.inj hx
      simpa using ih hrest _ hlater

end Story

/-! ## The memory of the machine -/

namespace Machine

variable {m m' : Machine}

theorem seats_withTop {f f' : Frame} {fs : List Frame} (hf : m.frames = f :: fs)
    (hfile : f'.file = f.file) (hreported : f'.reported = f.reported) :
    (m.withTop f').seats = m.seats := by
  simp [seats, Frame.seat, withTop, hf, hfile, hreported]

theorem seats_setLine (m : Machine) (line : Nat) : (m.setLine line).seats = m.seats := by
  unfold setLine
  split
  · rfl
  · next f fs hf => exact seats_withTop hf rfl rfl

theorem Binds.seats {name : String} {v : Value} (h : m.Binds name v m') : m'.seats = m.seats := by
  cases h with
  | nowhere => rfl
  | inLocals hf hl => exact seats_withTop hf rfl rfl
  | inGlobals scope => rfl

theorem seats_bind (m : Machine) (name : String) (v : Value) : (m.bind name v).seats = m.seats :=
  (binds_bind m name v).seats

end Machine

/-- What has happened tells the active frames of the run, of which there are some number. -/
structure Seated (d : Nat) (past : List Happening) (m : Machine) : Prop where
  seats : seatsAfter past = m.seats
  length : m.frames.length = d

theorem Seated.of_eq {d : Nat} {past : List Happening} {m m' : Machine} (h : Seated d past m)
    (hm : m'.seats = m.seats) : Seated d past m' := by
  refine ⟨h.seats.trans hm.symm, ?_⟩
  have hlength := congrArg List.length hm
  simpa [Machine.seats, h.length] using hlength

/-- A frame remembers what it reports. -/
theorem Seated.report {d : Nat} {past : List Happening} {m : Machine} (h : Seated d past m)
    {f : Frame} {fs : List Frame} (hf : m.frames = f :: fs) (line : Nat) (a : Except Signal Unit) :
    Seated d (past ++ [.said ⟨m.reportFrom line, .line f.file line, a⟩]) (m.reportFrom line) := by
  have hframes : (m.reportFrom line).frames =
      { f with line := line, reported := some line } :: fs := by
    simp [Machine.reportFrom, Machine.withTop, hf]
  have hseats : m.seats = f.seat :: fs.map Frame.seat := by rw [Machine.seats, hf, List.map_cons]
  have hlength := h.length
  refine ⟨?_, by rwa [hframes, List.length_cons, ← List.length_cons (a := f), ← hf]⟩
  rw [seatsAfter_snoc, h.seats, hseats, Machine.seats, hframes]
  rfl

namespace Narrator

variable {α β : Type} {d : Nat} {past : List Happening} {m m' : Machine} {t : Narrator α}

/-- From a state on everything fits, and what happened tells the active frames at the end. -/
def Obeys (d : Nat) (t : Narrator α) (past : List Happening) (m : Machine) : Prop :=
  (t m).Obeys (fun past _ m' => Seated d past m') past

/-- The same from every state with such frames. -/
def Keeps (d : Nat) (t : Narrator α) : Prop := ∀ past m, Seated d past m → t.Obeys d past m

/-! ## Rules -/

theorem keeps_pure (a : α) : Keeps d (pure a : Narrator α) := fun _ _ h => h

theorem keeps_bind {f : α → Narrator β} (ht : t.Keeps d) (hf : ∀ a, (f a).Keeps d) :
    (t >>= f).Keeps d := by
  refine fun past m h => Story.Obeys.bind (Story.Obeys.mono (ht past m h) fun past r m' h' => ?_)
  cases r with
  | ok a => exact hf a past m' h'
  | error e => exact h'

theorem keeps_outcome (ht : t.Keeps d) : (outcome t).Keeps d :=
  fun past m h => Story.Obeys.bind (Story.Obeys.mono (ht past m h) fun _ _ _ h' => h')

/-- A part that goes on after another one whatever its outcome is. -/
theorem obeys_handle {f : Except Exit α → Narrator β}
    (ht : (t m).Obeys (fun past r m' => (f r).Obeys d past m') past) :
    (outcome t >>= f).Obeys d past m := Story.Obeys.bind (Story.Obeys.bind ht)

theorem obeys_mark {k : Mark} {f : Unit → Narrator α} (hk : Happening.Fits past (.mark k))
    (hf : (f ()).Obeys d (past ++ [.mark k]) m) : (mark k >>= f).Obeys d past m := ⟨hk, hf⟩

theorem obeys_get {f : Machine → Narrator α} (hf : (f m).Obeys d past m) :
    (of Script.get >>= f).Obeys d past m := hf

theorem obeys_set {f : Unit → Narrator α} (hf : (f ()).Obeys d past m') :
    (of (Script.set m') >>= f).Obeys d past m := hf

theorem keeps_get {f : Machine → Narrator α} (hf : ∀ m, (f m).Keeps d) :
    (of Script.get >>= f).Keeps d := fun past m h => hf m past m h

theorem keeps_ofExcept (r : Except Exit α) : (of (Script.ofExcept r)).Keeps d := fun _ _ h => h

theorem keeps_exit (e : Exit) : (of (Script.exit e : Script α)).Keeps d := fun _ _ h => h

theorem keeps_raise (c : Cause) : (of (Script.raise c : Script α)).Keeps d := fun _ _ h => h

theorem keeps_exhausted : (of (Script.exhausted : Script α)).Keeps d := fun _ _ _ => trivial

theorem keeps_modify {g : Machine → Machine} (hg : ∀ m, (g m).seats = m.seats) :
    (of (Script.modify g)).Keeps d := fun _ m h => h.of_eq (hg m)

/-- What is asked is no line. -/
theorem keeps_ask {q : Query} (hq : q.report? = none) : (of (Script.ask q)).Keeps d := by
  refine fun past m h a => ?_
  have hturn : seatsAfter (past ++ [.said ⟨m, q, a⟩]) = m.seats := by
    simp only [seatsAfter_snoc, Happening.turn, hq]
    exact h.seats
  refine ⟨⟨hturn, ?_⟩, ⟨hturn, h.length⟩⟩
  rintro file line rfl
  cases hq

/-- A script with parts. -/
theorem keeps_parts {s : Script α} {f : α → Script β} (hs : (of s).Keeps d)
    (hf : ∀ a, (of (f a)).Keeps d) : (of (s >>= f)).Keeps d := by
  rw [of_bind]
  exact keeps_bind hs hf

theorem keeps_talk {asks : Query → Prop} (hasks : ∀ q, asks q → q.report? = none) {s : Script α}
    (h : s.Talks asks) : (of s).Keeps d := by
  induction h with
  | pure a => exact keeps_pure a
  | raise c => exact keeps_raise c
  | crash reason => exact fun _ _ _ => trivial
  | ask hq _ ih => exact keeps_parts (keeps_ask (hasks _ hq)) ih

theorem keeps_native (n : Native) (args : List Value) : (of (n.call args)).Keeps d :=
  keeps_talk (fun _ hq => by cases hq <;> rfl) (n.talks_call args)

theorem keeps_lookupName (name : String) : (of (lookupName name)).Keeps d := by
  unfold lookupName
  rw [of_bind]
  refine keeps_get fun m => ?_
  cases m.lookup? name with
  | some v => exact keeps_pure v
  | none => exact keeps_raise _

theorem keeps_lookupMember (object member : String) :
    (of (lookupMember object member)).Keeps d := by
  refine keeps_parts (keeps_lookupName object) fun v => ?_
  cases v with
  | module serial name members =>
    dsimp only
    cases Bindings.get? member members with
    | some v => exact keeps_pure v
    | none => exact keeps_raise _
  | _ => exact keeps_raise _

theorem keeps_assignName (name : String) (v : Value) : (of (assignName name v)).Keeps d := by
  intro past m h
  unfold assignName
  rw [of_bind]
  refine obeys_get ?_
  cases ha : m.assign? name v with
  | some m' => exact h.of_eq (Machine.binds_assign ha).seats
  | none => exact h

theorem keeps_addModule (name : String) (members : Bindings) :
    (of (addModule name members)).Keeps d := by
  intro past m h
  unfold addModule
  rw [of_bind]
  refine obeys_get ?_
  rw [of_bind]
  exact obeys_set (h.of_eq rfl)

theorem keeps_deferBody (body : Block) : (of (deferBody body)).Keeps d := by
  intro past m h
  unfold deferBody
  rw [of_bind]
  refine obeys_get ?_
  rw [of_bind]
  exact obeys_set (h.of_eq rfl)

theorem keeps_tellFrames (ht : t.Keeps d) : (tellFrames t).Keeps d := by
  refine keeps_bind (keeps_outcome ht) fun r => ?_
  split
  · split
    · exact keeps_get fun m => keeps_exit _
    · exact keeps_exit _
  · exact keeps_ofExcept _

/-! ## Lines -/

/-- The frame that reports a line stays where it is, or remembers the report. -/
theorem obeys_report {always : Bool} {line : Nat} {f : Unit → Narrator α}
    (h : Seated (d + 1) past m)
    (hsilent : ∀ s outer, seatsAfter past = s :: outer → always = false →
      s.last = some (s.file, line) → ∀ m', Seated (d + 1) past m' → (f ()).Obeys (d + 1) past m')
    (hreport : ∀ s outer, seatsAfter past = s :: outer →
      always = true ∨ s.last ≠ some (s.file, line) → ReportFits past s.file line ∧
        ∀ x m', x.query = .line s.file line → Seated (d + 1) (past ++ [.said x]) m' →
          (f ()).Obeys (d + 1) (past ++ [.said x]) m') :
    (of (reportLine always line) >>= f).Obeys (d + 1) past m := by
  obtain ⟨g, fs, hf⟩ := List.exists_cons_of_length_eq_add_one h.length
  have htop : seatsAfter past = g.seat :: fs.map Frame.seat := by
    rw [h.seats, Machine.seats, hf, List.map_cons]
  change ((Story.ofDialogue (reportLine always line m)).bind _).Obeys _ _
  rw [reportLine_eq hf]
  split
  · next hsame =>
    obtain ⟨hnot, hreported⟩ : always = false ∧ g.reported = some line := by simpa using hsame
    refine hsilent _ _ htop hnot ?_ _ (h.of_eq (m.seats_setLine line))
    simp [Frame.seat, hreported]
  · next hdiffers =>
    have hlast : always = true ∨ g.seat.last ≠ some (g.seat.file, line) := by
      cases always with
      | true => exact .inl rfl
      | false => exact .inr fun hsame => hdiffers (by simpa [Frame.seat] using hsame)
    obtain ⟨hfits, hnext⟩ := hreport _ _ htop hlast
    intro a
    have hseated := h.report hf line a
    refine ⟨⟨hseated.seats, ?_⟩, ?_⟩
    · rintro file number hq
      cases hq
      exact hfits
    · cases a with
      | ok a => exact hnext _ _ rfl hseated
      | error sig => exact hseated

/-- A mark that changes no frame. -/
theorem obeys_remark {k : Mark} {f : Unit → Narrator α} (h : Seated d past m)
    (hk : Happening.Fits past (.mark k)) (hturn : ∀ seats, Happening.turn seats (.mark k) = seats)
    (hf : ∀ past, Seated d past m → (f ()).Obeys d past m) : (mark k >>= f).Obeys d past m :=
  obeys_mark hk (hf _ ⟨by rw [seatsAfter_snoc, hturn, h.seats], h.length⟩)

end Narrator

/-! ## The functions of the evaluator -/

open Narrator

/-- Nodes are evaluated in frames. -/
def Teller.Keeps (te : Teller) : Prop := ∀ d n, (te n).Keeps (d + 1)

section

variable {env : Environment} {te : Teller} {d : Nat}

theorem keeps_tellBlock (hte : te.Keeps) (last : Value) (ns : Block) :
    (tellBlock te last ns).Keeps (d + 1) := by
  induction ns generalizing last with
  | nil => exact keeps_pure last
  | cons n ns ih =>
    -- the rest of the block, from the start of the statement
    have starts : ∀ past m, Seated (d + 1) past m → StartsFit past n →
        (mark (.starts n) >>= fun _ => te n >>= fun v => tellBlock te v ns).Obeys (d + 1) past m :=
      fun past m h hfits => obeys_remark h hfits (fun _ => rfl) fun past h =>
        keeps_bind (hte d n) (fun v => ih v) past m h
    intro past m h
    refine obeys_mark trivial (obeys_report ⟨?_, h.length⟩ ?_ ?_)
    · rw [seatsAfter_snoc]
      exact h.seats
    · exact fun s outer hs _ hlast m' h' => starts _ m' h' ⟨⟨s, outer, hs, hlast⟩, past, .inl rfl⟩
    · intro s outer hs hlast
      refine ⟨⟨s, outer, past, hs, rfl, .inl ⟨n, rfl, hlast.resolve_left nofun, rfl⟩⟩, ?_⟩
      intro x m' hx h'
      have hlast' : seatsAfter (past ++ [.mark (.reaches n)] ++ [.said x]) =
          { s with last := some (s.file, n.line) } :: outer := by
        rw [seatsAfter_snoc, hs, Happening.turn, hx]
        rfl
      refine starts _ m' h' ⟨⟨_, outer, hlast', rfl⟩, past, .inr ⟨x, ?_, ?_⟩⟩
      · rw [hx]
        rfl
      · rw [List.append_assoc]
        rfl

theorem keeps_tellAll (hte : te.Keeps) (ns : List Node) : (tellAll te ns).Keeps (d + 1) := by
  induction ns with
  | nil => exact keeps_pure _
  | cons n ns ih => exact keeps_bind (hte d n) fun v => keeps_bind ih fun vs => keeps_pure _

theorem keeps_tellUntil (hte : te.Keeps) (stop : Bool) (last : Value) (ns : List Node) :
    (tellUntil te stop last ns).Keeps (d + 1) := by
  induction ns generalizing last with
  | nil => exact keeps_pure _
  | cons n ns ih =>
    refine keeps_bind (hte d n) fun v => ?_
    split
    · exact keeps_pure _
    · exact ih v

/-- A body finds a frame that reported nothing yet, and its caller finds its own as it was. -/
theorem keeps_tellEnter {f : Frame} (hf : f.reported = none) {body : Narrator Value}
    (hbody : body.Keeps (d + 1)) : (tellEnter env f body).Keeps d := by
  intro past m h
  refine obeys_get ?_
  split
  · exact h.of_eq rfl
  · refine obeys_set (obeys_mark trivial ?_)
    have hpush : Seated (d + 1) (past ++ [.mark (.enters f.file)]) (m.push f) := by
      refine ⟨?_, congrArg (· + 1) h.length⟩
      rw [seatsAfter_snoc, h.seats]
      simp [Happening.turn, Machine.seats, Machine.push, Frame.seat, hf]
    refine obeys_handle (Story.Obeys.mono (hbody _ _ hpush) fun past r m' h' => ?_)
    refine ⟨trivial, ?_, by rw [Machine.pop, List.length_drop, h'.length, Nat.add_sub_cancel]⟩
    rw [seatsAfter_snoc, h'.seats]
    simp [Happening.turn, Machine.seats, Machine.pop]

theorem keeps_tellBody (hte : te.Keeps) (body : Block) : (tellBody te body).Keeps (d + 1) := by
  refine keeps_bind (keeps_outcome (keeps_tellBlock hte _ _)) fun r => ?_
  split
  · exact keeps_pure _
  · exact keeps_ofExcept _

theorem keeps_tellCall (hte : te.Keeps) (callee : Value) (args : List Value) :
    (tellCall env te callee args).Keeps d := by
  unfold tellCall
  split
  · unfold tellFunction
    split
    · exact keeps_raise _
    · exact keeps_tellEnter rfl (keeps_tellBody hte _)
  · exact keeps_native _ _
  · exact keeps_raise _

theorem keeps_tellSettle (hte : te.Keeps) (fuel : Nat) (v : Value) :
    (tellSettle env te fuel v).Keeps d := by
  induction fuel generalizing v with
  | zero =>
    cases v with
    | deferred serial body locals file scope => exact keeps_exhausted
    | _ => exact keeps_pure _
  | succ fuel ih =>
    cases v with
    | deferred serial body locals file scope =>
      exact keeps_bind (keeps_tellEnter rfl (keeps_tellBody hte _)) fun v => ih v
    | _ => exact keeps_pure _

theorem keeps_tellModule (hte : te.Keeps) (name : String) (p : Program) :
    (tellModule env te name p).Keeps d := by
  intro past m h
  refine obeys_get (obeys_set ?_)
  refine keeps_bind (keeps_tellEnter rfl (keeps_tellBody hte _)) (fun _ => ?_) past _ (h.of_eq rfl)
  refine keeps_get fun m' => ?_
  split
  · exact keeps_pure _
  · exact keeps_pure _

theorem keeps_tellLoad (hte : te.Keeps) (name : String) : (tellLoad env te name).Keeps d := by
  refine keeps_get fun m => ?_
  split
  · exact keeps_pure _
  · split
    · exact keeps_raise _
    · exact keeps_addModule _ _
    · exact keeps_bind (keeps_tellModule hte _ _) fun _ => keeps_addModule _ _

theorem keeps_tellLoop (hte : te.Keeps) (line : Nat) (condition : Node) (body : Block) (fuel : Nat)
    (isFirst : Bool) : (tellLoop te line condition body fuel isFirst).Keeps (d + 1) := by
  induction fuel generalizing isFirst with
  | zero => exact keeps_exhausted
  | succ fuel ih =>
    have round : (te condition >>= fun c => if c.isTrue then do
          let _ ← tellBlock te .nil body
          tellLoop te line condition body fuel false
        else return .nil).Keeps (d + 1) := by
      refine keeps_bind (hte d condition) fun c => ?_
      split
      · exact keeps_bind (keeps_tellBlock hte _ _) fun _ => ih false
      · exact keeps_pure _
    intro past m h
    cases isFirst with
    | true => exact obeys_remark h trivial (fun _ => rfl) fun past h => round past m h
    | false =>
      refine obeys_mark trivial (obeys_report ⟨?_, h.length⟩ ?_ ?_)
      · rw [seatsAfter_snoc]
        exact h.seats
      · exact fun s outer hs hnot => absurd hnot nofun
      · intro s outer hs hlast
        refine ⟨⟨s, outer, past, hs, rfl, .inr rfl⟩, fun x m' hx h' => ?_⟩
        refine obeys_remark h' ?_ (fun _ => rfl) fun past h => round past m' h
        refine ⟨{ s with last := some (s.file, line) }, outer, past, x, ?_, hx, ?_⟩
        · rw [seatsAfter_snoc, hs, Happening.turn, hx]
          rfl
        · rw [List.append_assoc]
          rfl

theorem keeps_tellAttempt (hte : te.Keeps) (body : Block) (handlers : List Handler) :
    (tellAttempt te body handlers).Keeps (d + 1) := by
  refine keeps_bind (keeps_outcome (keeps_tellBlock hte _ _)) fun r => ?_
  split
  · split
    · exact keeps_exit _
    · split
      · exact keeps_bind (keeps_modify fun m => m.seats_bind _ _) fun _ => keeps_tellBlock hte _ _
      · exact keeps_tellBlock hte _ _
  · exact keeps_ofExcept _

theorem keeps_tellMessage (hte : te.Keeps) (message : Option Node) :
    (tellMessage te message).Keeps (d + 1) := by
  cases message with
  | none => exact keeps_pure _
  | some n => exact keeps_bind (hte d n) fun v => keeps_pure _

theorem keeps_tellNode (hte : te.Keeps) (rounds : Nat) (n : Node) :
    (tellNode env te rounds n).Keeps (d + 1) := by
  have named (name : String) (v : Value) :
      (of (Script.modify fun m => m.bind name v) >>= fun _ => pure Value.nil).Keeps (d + 1) :=
    keeps_bind (keeps_modify fun m => m.seats_bind name v) fun _ => keeps_pure _
  cases n with
  | literal line l => exact keeps_pure _
  | «variable» line name => exact keeps_lookupName name
  | member line object member => exact keeps_lookupMember object member
  | bind line name value => exact keeps_bind (hte d value) fun v => named name v
  | assign line name value =>
    exact keeps_bind (hte d value) fun v => keeps_bind (keeps_assignName name v) fun _ =>
      keeps_pure _
  | define line name params body file column =>
    exact fun past m h => obeys_get (obeys_set (h.of_eq (m.seats_bind _ _)))
  | branch line condition taken other =>
    exact keeps_bind (hte d condition) fun c => keeps_tellBlock hte _ _
  | loop line condition body => exact keeps_tellLoop hte line condition body rounds true
  | block line body => exact keeps_tellBlock hte _ body
  | leave line value =>
    cases value with
    | none => exact keeps_exit _
    | some value => exact keeps_bind (hte d value) fun v => keeps_exit _
  | load line name => exact keeps_bind (keeps_tellLoad hte name) fun v => named name v
  | defer line body => exact keeps_deferBody body
  | await line value => exact keeps_bind (hte d value) fun v => keeps_tellSettle hte rounds v
  | allOf line items => exact keeps_tellUntil hte false _ items
  | anyOf line items => exact keeps_tellUntil hte true _ items
  | raise line name message =>
    exact keeps_bind (keeps_tellMessage hte message) fun text => keeps_exit _
  | attempt line body handlers => exact keeps_tellAttempt hte body handlers
  | call line callee args =>
    refine keeps_bind (keeps_modify fun m => m.seats_setLine line) fun _ => ?_
    refine keeps_bind (hte d callee) fun f => keeps_bind (keeps_tellAll hte args) fun vs => ?_
    exact keeps_bind (keeps_modify fun m => m.seats_setLine line) fun _ => keeps_tellCall hte f vs

theorem keeps_tell (env : Environment) (fuel : Nat) : Teller.Keeps (tell env fuel) := by
  induction fuel with
  | zero => exact fun d n => keeps_exhausted
  | succ fuel ih =>
    exact fun d n => keeps_tellFrames (keeps_bind (keeps_ask rfl) fun _ => keeps_tellNode ih fuel n)

end

/-- Line reports. The story of a program is about its dialogue, and of a conversation with a host it
tells what is said in it. Every happening fits after those before it: when a statement begins, the
last report of its frame was for the file of the frame and the line of the statement; a line is
reported when a block comes to a statement whose line the frame did not report last, and when a loop
comes back to its condition, which is always; and there are no other reports. -/
theorem lines_reported {σ : Type} (h : Host σ) (env : Environment) (fuel : Nat) (p : Program)
    (t : σ) :
    (p.story env fuel).erase = p.dialogue env fuel ∧
    ((p.story env fuel).happenings h t).filterMap Happening.exchange? =
      (p.dialogue env fuel).exchanges h t ∧
    ∀ before x after, (p.story env fuel).happenings h t = before ++ x :: after →
      x.Fits before := by
  refine ⟨p.erase_story env fuel, ?_, fun before x after hx => ?_⟩
  · rw [Story.exchanges_happenings, p.erase_story]
  · have hte := keeps_tell env fuel
    have hmain : Narrator.Keeps 0 (tellEnter env ⟨"<module>", p.file, 1, none, none, 0⟩ do
        let v ← tellBody (tell env fuel) p.body
        tellSettle env (tell env fuel) fuel v) :=
      keeps_tellEnter rfl (keeps_bind (keeps_tellBody hte _) fun v => keeps_tellSettle hte fuel v)
    have hobeys := hmain [] (Machine.start p) ⟨rfl, rfl⟩
    simpa using Story.Obeys.fits hobeys h t hx

namespace Reports

def env : Environment := ⟨⟨[]⟩, 9⟩

/-- The second statement of the loop. -/
def last : Node := .literal 5 .nil

/-- A function reports its own line between two statements that are on one line of a loop. -/
def calling : Program where
  file := "main.scm"
  source := ""
  body := [.define 1 "f" [] [.literal 2 .nil] "main.scm" 1,
    .bind 3 "x" (.literal 3 (.bool true)),
    .loop 4 (.variable 4 "x") [.assign 5 "x" (.call 5 (.variable 5 "f") []), last]]

def told : List Happening := (calling.story env 9).happenings .obliging ()

/-- The reports of some happenings. -/
def reports (past : List Happening) : List (String × Nat) :=
  (past.filterMap Happening.exchange?).filterMap fun x => x.query.report?

/-- The last report was from another frame. -/
theorem lines_reported_calling :
    told = told.take 29 ++ .mark (.starts last) :: told.drop 30 ∧
    (reports (told.take 29)).getLast? = some ("main.scm", 2) ∧ StartsFit (told.take 29) last := by
  have hsplit : told = told.take 29 ++ .mark (.starts last) :: told.drop 30 :=
    (List.take_append_drop 29 told).symm.trans (congrArg _ rfl)
  obtain ⟨-, -, hfits⟩ := lines_reported .obliging env 9 calling ()
  exact ⟨hsplit, by decide +kernel, hfits _ _ _ hsplit⟩

end Reports
end Lispbox
