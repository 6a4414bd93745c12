import Lispbox.Proofs.Json.Members
import Lispbox.Proofs.Json.Texts
import Lispbox.Wire.Editor
import Lispbox.Wire.Event
import Lispbox.Wire.Session

/-!
# What is written is read back

Front ends, editors and sessions exchange records as JSON. Records of a kind are read back
(`ReadsBack`) if each of them that fits can be told from what is written for it. A record fits if
its numbers have the widths that readers accept; texts can be any.

Members are looked up by their keys, so one argument serves the value that is written and the one
that is read from its text, whose members are in another order: both are arrangements of it.

* `Message.readsBack`, `Event.readsBack`, `RunRequest.readsBack` and so on: one for each record.
* `wire_shapes_read_back`: all of them, and explanations inside of messages.
-/
namespace Lispbox
open Json (Arrangement)

variable {α : Type} {write : α → Json} {read : Json → Option α} {fits : α → Prop}

/-- Every value that fits is read back from the JSON that is written for it, also if the members of
objects come in another order, and from the text of this JSON. -/
structure ReadsBack (write : α → Json) (read : Json → Option α) (fits : α → Prop) : Prop where
  written : ∀ v, fits v → read (write v) = some v
  arranged : ∀ v, fits v → ∀ arrange, Arrangement arrange → read (arrange (write v)) = some v
  text : ∀ v, fits v → (Json.parse (write v).print).bind read = some v

theorem readsBack_of (hlegible : ∀ v, fits v → (write v).IsLegible 0)
    (hread : ∀ arrange, Arrangement arrange → ∀ v, fits v → read (arrange (write v)) = some v) :
    ReadsBack write read fits where
  written := hread id Json.arrangement_id
  arranged v hv arrange h := hread arrange h v hv
  text v hv := by
    rw [Json.parse_print (hlegible v hv), Option.bind_some]
    exact hread Json.normal Json.arrangement_normal v hv

theorem readsBack_word {name : α → String} (hname : ∀ v, write v = .str (name v))
    (hread : ∀ v, read (write v) = some v) : ReadsBack write read fun _ => True := by
  refine readsBack_of (fun v _ => by rw [hname, Json.IsLegible]; trivial) fun arrange h v _ => ?_
  rw [hname, h.str, ← hname, hread]

theorem word64_of_word32 {n : Nat} (h : n < word32) : n < word64 := Nat.lt_trans h (by decide)

variable {arrange : Json → Json} {depth : Nat}

/-! ## Messages and events -/

/-- A number in the message has 64 bits. -/
def Message.Fits (m : Message) : Prop := ∀ n, m.data = .number n → n < word64

theorem Message.legible_toJson {m : Message} (hm : m.Fits) : m.toJson.IsLegible 0 := by
  obtain ⟨kind, data, contentType⟩ := m
  cases data with
  | number n =>
    have hn : (Json.nat n).IsLegible 1 := Json.legible_nat (hm n rfl)
    simp [toJson, Payload.toJson, Json.IsLegible, Json.MembersLegible, Json.maxNesting, hn]
  | text s => simp [toJson, Payload.toJson, Json.IsLegible, Json.MembersLegible, Json.maxNesting]

theorem Message.readPayload_arrange (h : Arrangement arrange) {m : Message} (hm : m.Fits) :
    readPayload? (arrange m.data.toJson) = some m.data := by
  have harrange : arrange m.data.toJson = m.data.toJson := by
    cases m.data with
    | number n => exact h.whole n
    | text s => exact h.str s
  rw [harrange, readPayload_toJson hm]

theorem Message.ofJson?_arrange (h : Arrangement arrange) {m : Message} (hm : m.Fits) :
    ofJson? (arrange m.toJson) = some m := by
  obtain ⟨ms, hms, hlookup⟩ := h.exists_members (j := m.toJson) rfl (by simp)
  rw [hms]
  simp [ofJson?, Json.Fields.required, hlookup, List.lookup_cons, h.str, Json.word?,
    Kind.ofName?_name, readPayload_arrange h hm]

theorem Message.readsBack : ReadsBack toJson ofJson? Fits :=
  readsBack_of (fun _ => legible_toJson) fun _ h _ => ofJson?_arrange h

/-- The stream of output has been found by its name, and numbers have the width for their kind. An
`other` stream with the name of a known one is read as the known one. -/
def Event.Fits : Event → Prop
  | .output o => ∃ name, o.stream = .ofName name
  | .sleep duration => duration < word64
  | .debugPause line => line < word32
  | .inputRequest _ | .interrupt _ => True

theorem Event.legible_toJson {e : Event} (he : e.Fits) : e.toJson.IsLegible 0 := by
  have hnumber : ∀ n, e = .sleep n ∨ e = .debugPause n → (Json.nat n).IsLegible 1 := by
    rintro n (rfl | rfl)
    · exact Json.legible_nat he
    · exact Json.legible_nat (word64_of_word32 he)
  cases e <;> simp [toJson, Json.IsLegible, Json.MembersLegible, Json.maxNesting, hnumber]

theorem Event.ofJson?_arrange (h : Arrangement arrange) {e : Event} (he : e.Fits) :
    ofJson? (arrange e.toJson) = some e := by
  cases e with
  | output o =>
    obtain ⟨name, hname⟩ := he
    have hstream : Stream.ofName o.stream.name = o.stream := by rw [hname, Stream.name_ofName]
    obtain ⟨ms, hms, hlookup⟩ := h.exists_members (j := toJson (.output o)) rfl (by simp)
    rw [hms, ofJson?]
    simp [ofKind?, Json.Fields.required, hlookup, List.lookup_cons, h.str, Stream.ofJson?, hstream]
  | inputRequest prompt =>
    obtain ⟨ms, hms, hlookup⟩ := h.exists_members (j := toJson (.inputRequest prompt)) rfl (by simp)
    rw [hms, ofJson?]
    simp [ofKind?, Json.Fields.required, hlookup, List.lookup_cons, h.str]
  | sleep duration =>
    obtain ⟨ms, hms, hlookup⟩ := h.exists_members (j := toJson (.sleep duration)) rfl (by simp)
    rw [hms, ofJson?]
    simp [ofKind?, Json.Fields.required, hlookup, List.lookup_cons, h.str, h.word64?_nat he]
  | interrupt reason =>
    obtain ⟨ms, hms, hlookup⟩ := h.exists_members (j := toJson (.interrupt reason)) rfl (by simp)
    rw [hms, ofJson?]
    simp [ofKind?, Json.Fields.required, hlookup, List.lookup_cons, h.str]
  | debugPause line =>
    obtain ⟨ms, hms, hlookup⟩ := h.exists_members (j := toJson (.debugPause line)) rfl (by simp)
    rw [hms, ofJson?]
    simp [ofKind?, Json.Fields.required, hlookup, List.lookup_cons, h.str, h.word32?_nat he]

theorem Event.readsBack : ReadsBack toJson ofJson? Fits :=
  readsBack_of (fun _ => legible_toJson) fun _ h _ => ofJson?_arrange h

/-! ## Sessions -/

theorem RunMode.readsBack : ReadsBack toJson ofJson? fun _ => True :=
  readsBack_word (fun _ => rfl) ofJson?_toJson

theorem DebugCommand.readsBack : ReadsBack toJson ofJson? fun _ => True :=
  readsBack_word (fun _ => rfl) ofJson?_toJson

theorem ExecutionState.readsBack : ReadsBack toJson ofJson? fun _ => True :=
  readsBack_word (fun _ => rfl) ofJson?_toJson

/-- The line of a pause has 32 bits. -/
def DebugState.Fits (s : DebugState) : Prop := ∀ line, s = .paused line → line < word32

theorem DebugState.readsBack : ReadsBack toJson ofJson? Fits := by
  refine readsBack_of (fun s hs => ?_) fun arrange h s hs => ?_
  · cases s with
    | paused line =>
      have hline : (Json.nat line).IsLegible 2 :=
        Json.legible_nat (word64_of_word32 (hs line rfl))
      simp [toJson, Json.IsLegible, Json.MembersLegible, Json.maxNesting, hline]
    | _ => trivial
  · cases s with
    | paused line =>
      -- the reader asks for an object without other members: it is not enough to find this one
      rw [toJson, h.singleton, h.singleton, ofJson?]
      simp [Json.Fields.required, h.word32?_nat (hs line rfl)]
    | _ => rw [toJson, h.str]; rfl

theorem eraseDups_of_increasing {ns : List Nat} (h : ns.Pairwise (· < ·)) : ns.eraseDups = ns := by
  induction h with
  | nil => rfl
  | @cons n ns hn _ ih =>
    have hfilter : ns.filter (fun m => !m == n) = ns :=
      List.filter_eq_self.mpr fun m hm => by simpa using Nat.ne_of_gt (hn m hm)
    rw [List.eraseDups_cons, hfilter, ih]

/-- Lines that are in order stay as they are. -/
theorem Debugger.sortLines_of_increasing {ns : List Nat} (h : ns.Pairwise (· < ·)) :
    sortLines ns = ns := by
  have hsorted : ns.mergeSort (· ≤ ·) = ns :=
    List.mergeSort_of_pairwise (h.imp fun hlt => decide_eq_true (Nat.le_of_lt hlt))
  rw [sortLines, hsorted, eraseDups_of_increasing h]

/-- The lines with breakpoints are a set of numbers of 32 bits. -/
def RunRequest.Fits (r : RunRequest) : Prop :=
  r.breakpoints.Pairwise (· < ·) ∧ ∀ n ∈ r.breakpoints, n < word32

theorem RunRequest.legible_toJson {r : RunRequest} (hr : r.Fits) : r.toJson.IsLegible 0 := by
  have hlines : Json.ItemsLegible 2 (r.breakpoints.map .nat) :=
    Json.itemsLegible_map fun n hn => Json.legible_nat (word64_of_word32 (hr.2 n hn))
  have hstdin : Json.ItemsLegible 2 (r.stdin.map .str) := Json.itemsLegible_map fun _ _ => trivial
  simp [toJson, RunMode.toJson, Json.texts, Json.IsLegible, Json.MembersLegible, Json.maxNesting,
    Json.legible_ofText?, hlines, hstdin]

theorem RunRequest.readsBack : ReadsBack toJson ofJson? Fits := by
  refine readsBack_of (fun _ => legible_toJson) fun arrange h r hr => ?_
  have hmode : RunMode.ofJson? (arrange r.mode.toJson) = some r.mode :=
    RunMode.readsBack.arranged r.mode trivial arrange h
  have hlines : Json.list? Json.word32? (arrange (.arr (r.breakpoints.map .nat))) =
      some r.breakpoints := h.list?_arr fun n hn => h.word32?_nat (hr.2 n hn)
  obtain ⟨ms, hms, hlookup⟩ := h.exists_members (j := r.toJson) rfl (by simp)
  rw [hms]
  simp [ofJson?, Json.Fields.optional, hlookup, List.lookup_cons, h.orNull?_ofText?, hmode, hlines,
    h.list?_texts, Debugger.sortLines_of_increasing hr.1]

/-- The revision has 64 bits. -/
def SourceUnit.Fits (u : SourceUnit) : Prop := u.revision < word64

theorem SourceUnit.readsBack : ReadsBack toJson ofJson? Fits := by
  refine readsBack_of (fun u hu => ?_) fun arrange h u hu => ?_
  · simp [toJson, Json.IsLegible, Json.MembersLegible, Json.maxNesting, Json.legible_nat hu]
  · obtain ⟨ms, hms, hlookup⟩ := h.exists_members (j := u.toJson) rfl (by simp)
    rw [hms]
    simp [ofJson?, Json.Fields.required, hlookup, List.lookup_cons, h.str, h.word64?_nat hu]

/-- The position has 32 bits. -/
def CompileError.Fits (e : CompileError) : Prop := e.line < word32 ∧ e.column < word32

theorem CompileError.readsBack : ReadsBack toJson ofJson? Fits := by
  refine readsBack_of (fun e he => ?_) fun arrange h e he => ?_
  · simp [toJson, Json.IsLegible, Json.MembersLegible, Json.maxNesting,
      Json.legible_nat (word64_of_word32 he.1), Json.legible_nat (word64_of_word32 he.2)]
  · obtain ⟨ms, hms, hlookup⟩ := h.exists_members (j := e.toJson) rfl (by simp)
    rw [hms]
    simp [ofJson?, Json.Fields.required, hlookup, List.lookup_cons, h.str, h.word32?_nat he.1,
      h.word32?_nat he.2]

theorem Explanation.readsBack : ReadsBack toJson ofJson? fun _ => True := by
  refine readsBack_of (fun e _ => ?_) fun arrange h e _ => ?_
  · simp [toJson, Json.IsLegible, Json.MembersLegible, Json.maxNesting]
  · obtain ⟨ms, hms, hlookup⟩ := h.exists_members (j := e.toJson) rfl (by simp)
    rw [hms]
    simp [ofJson?, Json.Fields.required, hlookup, List.lookup_cons, h.str]

/-- Both numbers have 64 bits. -/
def Config.Fits (c : Config) : Prop := c.recursionLimit < word64 ∧ c.workerStackBytes < word64

/-- Nothing is taken from the settings for fields that are missing. -/
theorem Config.readsBack (base : Config) : ReadsBack toJson (ofJson? base) Fits := by
  refine readsBack_of (fun c hc => ?_) fun arrange h c hc => ?_
  · simp [toJson, Json.IsLegible, Json.MembersLegible, Json.maxNesting, Json.legible_nat hc.1,
      Json.legible_nat hc.2]
  · obtain ⟨ms, hms, hlookup⟩ := h.exists_members (j := c.toJson) rfl (by simp)
    rw [hms]
    simp [ofJson?, Json.Fields.optional, hlookup, List.lookup_cons, h.str, h.bool, Json.bool?,
      h.word64?_nat hc.1, h.word64?_nat hc.2]

/-! ## Editors -/

/-- The numbers have 32 bits. -/
def Diagnostic.Fits (d : Diagnostic) : Prop :=
  d.line < word32 ∧ d.column < word32 ∧ d.endLine < word32 ∧ d.endColumn < word32

theorem Severity.readsBack : ReadsBack toJson ofJson? fun _ => True :=
  readsBack_word (fun _ => rfl) ofJson?_toJson

theorem Diagnostic.readsBack : ReadsBack toJson ofJson? Fits := by
  refine readsBack_of (fun d hd => ?_) fun arrange h d hd => ?_
  · obtain ⟨hline, hcolumn, hendLine, hendColumn⟩ := hd
    simp [toJson, Severity.toJson, Json.IsLegible, Json.MembersLegible, Json.maxNesting,
      Json.legible_nat (word64_of_word32 hline), Json.legible_nat (word64_of_word32 hcolumn),
      Json.legible_nat (word64_of_word32 hendLine), Json.legible_nat (word64_of_word32 hendColumn)]
  · obtain ⟨hline, hcolumn, hendLine, hendColumn⟩ := hd
    have hseverity : Severity.ofJson? (arrange d.severity.toJson) = some d.severity :=
      Severity.readsBack.arranged d.severity trivial arrange h
    obtain ⟨ms, hms, hlookup⟩ := h.exists_members (j := d.toJson) rfl (by simp)
    rw [hms]
    simp [ofJson?, Json.Fields.required, hlookup, List.lookup_cons, h.str, hseverity,
      h.word32?_nat hline, h.word32?_nat hcolumn, h.word32?_nat hendLine, h.word32?_nat hendColumn]

/-- Both offsets have 64 bits. -/
def TypedMatch.Fits (m : TypedMatch) : Prop := m.start < word64 ∧ m.stop < word64

theorem TypedMatch.legible_toJson (hdepth : depth < Json.maxNesting) {m : TypedMatch}
    (hm : m.Fits) : m.toJson.IsLegible depth := by
  simp [toJson, Json.IsLegible, Json.MembersLegible, hdepth, Json.legible_nat hm.1,
    Json.legible_nat hm.2]

theorem TypedMatch.ofJson?_arrange (h : Arrangement arrange) {m : TypedMatch} (hm : m.Fits) :
    ofJson? (arrange m.toJson) = some m := by
  obtain ⟨ms, hms, hlookup⟩ := h.exists_members (j := m.toJson) rfl (by simp)
  rw [hms]
  simp [ofJson?, Json.Fields.required, hlookup, List.lookup_cons, h.str, h.word64?_nat hm.1,
    h.word64?_nat hm.2]

/-- Positions have 32 bits and offsets 64. -/
def CompletionRequest.Fits (r : CompletionRequest) : Prop :=
  r.line < word32 ∧ r.column < word32 ∧ r.position < word64 ∧ ∀ m, r.before = some m → m.Fits

theorem CompletionRequest.readsBack : ReadsBack toJson ofJson? Fits := by
  refine readsBack_of (fun r hr => ?_) fun arrange h r hr => ?_
  · obtain ⟨text, line, column, position, explicit, before⟩ := r
    obtain ⟨hline, hcolumn, hposition, hbefore⟩ := hr
    cases before with
    | none =>
      simp [toJson, Json.IsLegible, Json.MembersLegible, Json.maxNesting,
        Json.legible_nat (word64_of_word32 hline), Json.legible_nat (word64_of_word32 hcolumn),
        Json.legible_nat hposition]
    | some m =>
      have hm : m.toJson.IsLegible 1 := TypedMatch.legible_toJson (by decide) (hbefore m rfl)
      simp [toJson, Json.IsLegible, Json.MembersLegible, Json.maxNesting,
        Json.legible_nat (word64_of_word32 hline), Json.legible_nat (word64_of_word32 hcolumn),
        Json.legible_nat hposition, hm]
  · obtain ⟨text, line, column, position, explicit, before⟩ := r
    obtain ⟨hline, hcolumn, hposition, hbefore⟩ := hr
    obtain ⟨ms, hms, hlookup⟩ := h.exists_members
      (j := toJson ⟨text, line, column, position, explicit, before⟩) rfl (by simp)
    rw [hms]
    cases before with
    | none =>
      simp [ofJson?, Json.Fields.required, Json.Fields.optional, hlookup, List.lookup_cons, h.str,
        h.bool, h.null, Json.bool?, Json.orNull?, h.word32?_nat hline, h.word32?_nat hcolumn,
        h.word64?_nat hposition]
    | some m =>
      have hm : Json.orNull? TypedMatch.ofJson? (arrange m.toJson) = some (some m) :=
        Json.orNull?_of_some rfl (TypedMatch.ofJson?_arrange h (hbefore m rfl))
      simp [ofJson?, Json.Fields.required, Json.Fields.optional, hlookup, List.lookup_cons, h.str,
        h.bool, Json.bool?, h.word32?_nat hline, h.word32?_nat hcolumn, h.word64?_nat hposition, hm]

/-- The rank is a signed integer of 64 bits. -/
def CompletionOption.Fits (o : CompletionOption) : Prop :=
  -(word63 : Int) ≤ o.boost ∧ o.boost < word63

theorem CompletionOption.legible_toJson (hdepth : depth < Json.maxNesting) {o : CompletionOption}
    (ho : o.Fits) : o.toJson.IsLegible depth := by
  have hwide : word63 < word64 := by decide
  have hboost : (Json.whole o.boost).IsLegible (depth + 1) :=
    ⟨ho.1, Int.lt_trans ho.2 (Int.ofNat_lt.mpr hwide)⟩
  obtain ⟨kind, label, info, boost⟩ := o
  cases info with
  | none => simpa [toJson, Json.IsLegible, Json.MembersLegible, hdepth] using hboost
  | some info => simpa [toJson, Json.IsLegible, Json.MembersLegible, hdepth] using hboost

theorem CompletionOption.ofJson?_arrange (h : Arrangement arrange) {o : CompletionOption}
    (ho : o.Fits) : ofJson? (arrange o.toJson) = some o := by
  have hboost : Json.int64? (arrange (.whole o.boost)) = some o.boost := by
    rw [h.whole, Json.int64?]
    exact if_pos ho
  -- documentation that is missing has no member at all: two kinds of objects are written
  obtain ⟨kind, label, info, boost⟩ := o
  cases info with
  | none =>
    obtain ⟨ms, hms, hlookup⟩ := h.exists_members (j := toJson ⟨kind, label, none, boost⟩) rfl
      (by simp)
    rw [hms]
    simp [ofJson?, Json.Fields.required, Json.Fields.optional, hlookup, List.lookup_cons, h.str,
      hboost]
  | some info =>
    obtain ⟨ms, hms, hlookup⟩ := h.exists_members (j := toJson ⟨kind, label, some info, boost⟩) rfl
      (by simp)
    rw [hms]
    simp [ofJson?, Json.Fields.required, Json.Fields.optional, hlookup, List.lookup_cons, h.str,
      Json.orNull?, hboost]

/-- Ranks and the offset have 64 bits. -/
def CompletionResponse.Fits (r : CompletionResponse) : Prop :=
  (∀ o ∈ r.options, o.Fits) ∧ r.start < word64

theorem CompletionResponse.readsBack : ReadsBack toJson ofJson? Fits := by
  refine readsBack_of (fun r hr => ?_) fun arrange h r hr => ?_
  · have hoptions : Json.ItemsLegible 2 (r.options.map CompletionOption.toJson) :=
      Json.itemsLegible_map fun o ho => CompletionOption.legible_toJson (by decide) (hr.1 o ho)
    simp [toJson, Json.IsLegible, Json.MembersLegible, Json.maxNesting, hoptions,
      Json.legible_nat hr.2]
  · have hoptions : Json.list? CompletionOption.ofJson?
        (arrange (.arr (r.options.map CompletionOption.toJson))) = some r.options :=
      h.list?_arr fun o ho => CompletionOption.ofJson?_arrange h (hr.1 o ho)
    obtain ⟨ms, hms, hlookup⟩ := h.exists_members (j := r.toJson) rfl (by simp)
    rw [hms]
    simp [ofJson?, Json.Fields.required, hlookup, List.lookup_cons, hoptions, h.word64?_nat hr.2]

/-! ## All shapes -/

/-- The explanation in the text of a message about an error. -/
def Message.explanation? (m : Message) : Option Explanation :=
  if m.kind = .error then (m.data.text?.bind Json.parse).bind Explanation.ofJson? else none

/-- What is written for an explanation inside of a message. -/
def Message.explanationToJson (e : Explanation) : Json := (Message.explanation e).toJson

/-- The explanation inside of the message that a JSON value stands for. -/
def Message.explanationOfJson? (j : Json) : Option Explanation :=
  (Message.ofJson? j).bind Message.explanation?

theorem Message.explanation?_explanation (e : Explanation) :
    (Message.explanation e).explanation? = some e := by
  have hkind : (Message.explanation e).kind = .error := rfl
  rw [explanation?, if_pos hkind, explanation, Payload.text?, Option.bind_some]
  exact Explanation.readsBack.text e trivial

theorem Message.explanation_readsBack :
    ReadsBack explanationToJson explanationOfJson? fun _ => True := by
  have hfits (e : Explanation) : (Message.explanation e).Fits := nofun
  refine readsBack_of (fun e _ => legible_toJson (hfits e)) fun arrange h e _ => ?_
  rw [explanationToJson, explanationOfJson?, ofJson?_arrange h (hfits e), Option.bind_some,
    explanation?_explanation]

/-- All that is written is read back: messages, with texts that look like numbers and with numbers
of the full range; events on any stream; requests with parts that are left out; and explanations,
also in the text of a message. -/
theorem wire_shapes_read_back :
    ReadsBack Message.toJson Message.ofJson? Message.Fits ∧
    ReadsBack Event.toJson Event.ofJson? Event.Fits ∧
    ReadsBack RunRequest.toJson RunRequest.ofJson? RunRequest.Fits ∧
    ReadsBack DebugCommand.toJson DebugCommand.ofJson? (fun _ => True) ∧
    ReadsBack DebugState.toJson DebugState.ofJson? DebugState.Fits ∧
    ReadsBack RunMode.toJson RunMode.ofJson? (fun _ => True) ∧
    ReadsBack ExecutionState.toJson ExecutionState.ofJson? (fun _ => True) ∧
    ReadsBack SourceUnit.toJson SourceUnit.ofJson? SourceUnit.Fits ∧
    ReadsBack CompileError.toJson CompileError.ofJson? CompileError.Fits ∧
    ReadsBack Explanation.toJson Explanation.ofJson? (fun _ => True) ∧
    ReadsBack Diagnostic.toJson Diagnostic.ofJson? Diagnostic.Fits ∧
    ReadsBack CompletionRequest.toJson CompletionRequest.ofJson? CompletionRequest.Fits ∧
    ReadsBack CompletionResponse.toJson CompletionResponse.ofJson? CompletionResponse.Fits ∧
    (∀ base, ReadsBack Config.toJson (Config.ofJson? base) Config.Fits) ∧
    ReadsBack Message.explanationToJson Message.explanationOfJson? (fun _ => True) :=
  ⟨Message.readsBack, Event.readsBack, RunRequest.readsBack, DebugCommand.readsBack,
    DebugState.readsBack, RunMode.readsBack, ExecutionState.readsBack, SourceUnit.readsBack,
    CompileError.readsBack, Explanation.readsBack, Diagnostic.readsBack,
    CompletionRequest.readsBack, CompletionResponse.readsBack, Config.readsBack,
    Message.explanation_readsBack⟩

/-- A text that looks like a number, the longest pause, and a request that leaves everything out. -/
theorem wire_shapes_read_back_extremes :
    (Json.parse (Message.toJson ⟨.output, .text "12", ContentType.plain⟩).print).bind
        Message.ofJson? = some ⟨.output, .text "12", ContentType.plain⟩ ∧
    (Json.parse (Event.toJson (.sleep 18446744073709551615)).print).bind Event.ofJson? =
      some (.sleep 18446744073709551615) ∧
    (Json.parse RunRequest.default.toJson.print).bind RunRequest.ofJson? = some .default :=
  ⟨wire_shapes_read_back.1.text ⟨.output, .text "12", ContentType.plain⟩ nofun,
    wire_shapes_read_back.2.1.text (.sleep 18446744073709551615)
      (by rw [Event.Fits, word64]; omega),
    wire_shapes_read_back.2.2.1.text .default ⟨.nil, nofun⟩⟩

end Lispbox
