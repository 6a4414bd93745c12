import Lispbox.CommandLine.Terminal
import Lispbox.Proofs.Json.Texts
import Lispbox.Proofs.Service.Agreement

/-!
# Errors on a terminal

A session has three kinds of errors to publish: a source that does not compile, an event without a
message, and an exception. The last kind comes as the text of a JSON object, and the terminal tells
the kinds apart by reading the text. That works because the texts of the other two kinds begin with
a letter that no JSON value begins with, whatever names and lines stand in them.

* `Session.errors_reported`: no other errors are published in any history of a session.
* `errorText_explanation`: the traceback and what happened are read from the text as they are.
* `errors_shown`: every error that is published is shown for what it is.
-/
namespace Lispbox

open CommandLine (Print errorText textMember withNewline)

/-! ## The texts of errors -/

theorem Json.parse_none {s : String} (h : readTree (s.toList.length + 1) s.toList = none) :
    parse s = none := by
  rw [parse, readText, h]
  rfl

theorem CompileError.parse_render (e : CompileError) : Json.parse e.render = none := by
  obtain ⟨rest, hrest⟩ : ∃ rest, e.render.toList = ' ' :: ' ' :: 'F' :: rest := by
    unfold render
    simp
  exact Json.parse_none (by rw [hrest]; rfl)

theorem UnknownEvent.parse_describe (u : UnknownEvent) : Json.parse u.describe = none := by
  obtain ⟨rest, hrest⟩ : ∃ rest, u.describe.toList = 'u' :: rest := by
    unfold describe
    simp
  exact Json.parse_none (by rw [hrest]; rfl)

theorem errorText_of_none {text : String} (h : Json.parse text = none) : errorText text = text := by
  rw [errorText, h]

theorem Explanation.parse_print (x : Explanation) :
    Json.parse x.toJson.print = some x.toJson.normal :=
  Json.parse_print (by simp [toJson, Json.IsLegible, Json.MembersLegible, Json.maxNesting])

theorem errorText_explanation (x : Explanation) :
    errorText x.toJson.print = x.traceback ++ "\n" ++ x.what := by
  rw [errorText, x.parse_print, x.normal_toJson]
  rfl

/-! ## The errors that are published -/

/-- The message is about one of the three kinds of errors. -/
inductive Message.IsReport : Message → Prop where
  | compileError (e : CompileError) : IsReport (.compileError e)
  | unknownEvent (u : UnknownEvent) : IsReport (.unknownEvent u)
  | explanation (x : Explanation) : IsReport (.explanation x)

/-- The message of an event is no error. -/
theorem ofEvent_not_error {e : Event} {m : Message} (h : Message.ofEvent e = .ok (some m)) :
    m.kind ≠ .error := by
  rcases ofEvent_ongoing h with hongoing | ⟨reason, -, rfl⟩
  · intro hkind
    rw [Message.IsOngoing, hkind] at hongoing
    cases hongoing
  · nofun

/-- The errors among the messages of a session. -/
theorem Message.Occurs.isReport {m : Message} (h : m.Occurs) (hkind : m.kind = .error) :
    m.IsReport := by
  cases h with
  | start mode => cases hkind
  | loading modules status => cases hkind
  | event he => exact absurd hkind (ofEvent_not_error he)
  | last hc =>
    cases hc with
    | completed v => cases hkind
    | interrupted => cases hkind
    | compileFailed e => exact .compileError e
    | failed x => exact .explanation x
    | unknownEvent u => exact .unknownEvent u

namespace Session

/-- All errors that were published are of the three kinds. -/
def Reports (s : Session) : Prop := ∀ m, .publish m ∈ s.notices → m.kind = .error → m.IsReport

variable {s s' : Session}

theorem Reports.of_eq (h : s.Reports) (hn : s'.notices = s.notices) : s'.Reports := by
  rw [Reports, hn]
  exact h

theorem Reports.note (h : s.Reports) {n : Notice}
    (hn : ∀ m, n = .publish m → m.kind = .error → m.IsReport) : (s.note n).Reports := by
  intro m hm hkind
  rcases List.mem_cons.mp hm with heq | hm
  · exact hn m heq.symm hkind
  · exact h m hm hkind

theorem Reports.enter (h : s.Reports) (next : ExecutionState) : (s.enter next).Reports := by
  unfold Session.enter
  split
  · exact h
  · exact note (s := { s with state := next }) h nofun

/-- No step of a run publishes other errors. -/
theorem reports : Lasting fun s s' => s.Reports → s'.Reports where
  of_eq hn _ _ _ h := h.of_eq hn
  trans h h' hs := h' (h hs)
  enter next h := h.enter next
  publish hm h := h.note fun _ heq => by cases heq; exact hm.isReport
  consult hn h := h.note fun _ heq => by cases heq; cases hn
  install _ h := h
  installAll _ h := h

theorem Reports.perform (h : s.Reports) (a : Act) : (s.perform a).Reports := by
  unfold Session.perform
  have hacted := act_cases s a
  generalize s.act a = r at hacted
  cases hacted with
  | refused hf ha => exact h
  | run hf request =>
    have hsource : Reports { s with source := s.sourceFor request } := h.of_eq rfl
    exact reports.start _ _ request hsource
  | replaced hf text file => exact h.of_eq rfl
  | kept hf v => exact h.of_eq rfl
  | moved hf v => exact reports.move ⟨s, none⟩ v h

theorem Reports.live (h : s.Reports) (as : List Act) : (s.live as).Reports :=
  live_induction (fun a h => h.perform a) h as

theorem mem_published {s₀ : Session} {m : Message} (h : m ∈ s₀.published s) :
    .publish m ∈ s.notices := by
  obtain ⟨n, hn, hm⟩ := List.mem_filterMap.mp h
  cases n with
  | publish m' =>
    cases hm
    exact List.mem_of_mem_take (List.mem_reverse.mp hn)
  | enter next => cases hm
  | prefetch names => cases hm
  | resolve name => cases hm

/-- The errors of a session are of the three kinds, whatever happens to it. -/
theorem errors_reported (setup : Setup) (registry : Registry) (as : List Act) {m : Message}
    (hm : m ∈ (idle setup registry).published ((idle setup registry).live as))
    (hkind : m.kind = .error) : m.IsReport := by
  have hidle : (idle setup registry).Reports := fun m hm => by cases hm
  exact hidle.live as m (mem_published hm) hkind

end Session

/-- What is shown for an error is the text of the error itself if a source does not compile or an
event has no message, whatever stands in the text; for an exception it is the traceback, and on the
next line what happened.

These are all the errors that a session publishes in any history. The text of one is read as a JSON
object exactly if it is an explanation, which the message tells by its content type. -/
theorem errors_shown :
    (∀ e : CompileError, errorText e.render = e.render) ∧
    (∀ u : UnknownEvent, errorText u.describe = u.describe) ∧
    (∀ x : Explanation, errorText x.toJson.print = x.traceback ++ "\n" ++ x.what) ∧
    ∀ (setup : Setup) (registry : Registry) (acts : List Act) (m : Message),
      m ∈ (Session.idle setup registry).published ((Session.idle setup registry).live acts) →
      m.kind = .error →
      ∃ text, m.data = .text text ∧ Print.forUser m = [.err (withNewline (errorText text))] ∧
        (m.contentType = ContentType.plain ∧ (∀ ms, Json.parse text ≠ some (.obj ms)) ∧
            ((∃ e : CompileError, text = e.render) ∨ ∃ u : UnknownEvent, text = u.describe) ∨
          m.contentType = ContentType.json ∧ (∃ ms, Json.parse text = some (.obj ms)) ∧
            ∃ x : Explanation, text = x.toJson.print) := by
  refine ⟨fun e => errorText_of_none e.parse_render, fun u => errorText_of_none u.parse_describe,
    errorText_explanation, fun setup registry acts m hm hkind => ?_⟩
  cases Session.errors_reported setup registry acts hm hkind with
  | compileError e =>
    refine ⟨e.render, rfl, rfl, .inl ⟨rfl, fun ms => ?_, .inl ⟨e, rfl⟩⟩⟩
    rw [e.parse_render]
    nofun
  | unknownEvent u =>
    refine ⟨u.describe, rfl, rfl, .inl ⟨rfl, fun ms => ?_, .inr ⟨u, rfl⟩⟩⟩
    rw [u.parse_describe]
    nofun
  | explanation x =>
    have hparse := x.parse_print.trans (congrArg some x.normal_toJson)
    exact ⟨x.toJson.print, rfl, rfl, .inr ⟨rfl, ⟨_, hparse⟩, x, rfl⟩⟩

namespace Errors

/-- A session with the usual modules, and a resolver that finds nothing. -/
def setup : Setup := ⟨⟨9, "main.scm", 0, true⟩, .none, ⟨fun _ => "", fun _ => ""⟩, 9⟩

/-- The name of the file looks like the start of an object. -/
def error : CompileError := ⟨"\x7b\"traceback\":", 1, 1, "unmatched ')'", ")"⟩

theorem errors_shown_compileError :
    Message.compileError error ∈ (Session.idle setup .standard).published
        ((Session.idle setup .standard).live [.run ⟨some ")", some error.file, .plain, [], []⟩]) ∧
      Print.forUser (.compileError error) = [.err (withNewline error.render)] := by
  have hpublished : Message.compileError error ∈ (Session.idle setup .standard).published
      ((Session.idle setup .standard).live [.run ⟨some ")", some error.file, .plain, [], []⟩]) := by
    decide +kernel
  obtain ⟨text, htext, hshown, -⟩ := errors_shown.2.2.2 _ _ _ _ hpublished rfl
  cases htext
  rw [errors_shown.1] at hshown
  exact ⟨hpublished, hshown⟩

end Errors
end Lispbox
