import Lispbox.Value.Display

/-!
# Two documents of a value

A value has a JSON document of its own, and one that it is given as a part of a larger document.
Both have a list for a list and one scalar for everything else (`KeepsLists`), so what stands at a
place of the value stands at the same place in both. There the two are the same
(`Value.Documents`), but for doubles that are not finite: these are named in the first document and
null in the second.

* `KeepsLists.at?`: what stands at a place of a document.
* `documents`: a part of a value in the two documents.
* `toJson_eq_serialize`: without such doubles the documents are equal.
* `documents_agree`: the two documents, place by place.
-/
namespace Lispbox

/-! ## Places -/

/-- What stands at a place inside a value, given by the index in each of the lists around it. -/
def Value.at? : List Nat → Value → Option Value
  | [], v => some v
  | i :: path, .list items => items[i]?.bind (Value.at? path)
  | _ :: _, _ => none

@[inherit_doc Value.at?]
def Json.at? : List Nat → Json → Option Json
  | [], j => some j
  | i :: path, .arr items => items[i]?.bind (Json.at? path)
  | _ :: _, _ => none

/-- A list is written as the list of what its items are written as, and nothing else as a list. -/
structure KeepsLists (write : Value → Json) : Prop where
  list : ∀ items : List Value, write (.list items) = .arr (items.map write)
  scalar : ∀ v : Value, v.kind ≠ .list → ∀ js : List Json, write v ≠ .arr js

theorem Value.at?_scalar {v : Value} (h : v.kind ≠ .list) (i : Nat) (path : List Nat) :
    v.at? (i :: path) = none := by
  cases v with
  | list items => exact absurd rfl h
  | _ => rfl

theorem Json.at?_scalar {j : Json} (h : ∀ js : List Json, j ≠ .arr js) (i : Nat)
    (path : List Nat) : j.at? (i :: path) = none := by
  cases j with
  | arr js => exact absurd rfl (h js)
  | _ => rfl

theorem KeepsLists.at? {write : Value → Json} (h : KeepsLists write) (path : List Nat)
    (v : Value) : (write v).at? path = (v.at? path).map write := by
  induction path generalizing v with
  | nil => rfl
  | cons i path ih =>
    by_cases hv : v.kind = .list
    · cases v with
      | list items =>
        rw [h.list, Json.at?, Value.at?, List.getElem?_map]
        cases items[i]? with
        | none => rfl
        | some w => exact ih w
      | _ => cases hv
    · rw [Json.at?_scalar (h.scalar v hv), Value.at?_scalar hv]
      rfl

theorem jsonItems_eq_map (items : List Value) : jsonItems items = items.map Value.toJson := by
  induction items with
  | nil => rfl
  | cons v vs ih => rw [jsonItems, ih, List.map_cons]

theorem serializeItems_eq_map (items : List Value) :
    serializeItems items = items.map Value.serialize := by
  induction items with
  | nil => rfl
  | cons v vs ih => rw [serializeItems, ih, List.map_cons]

theorem keepsLists_toJson : KeepsLists Value.toJson where
  list items := by rw [Value.toJson, jsonItems_eq_map]
  scalar v hv js := by
    cases v with
    | list items => exact absurd rfl hv
    | float x =>
      unfold Value.toJson
      split <;> nofun
    | _ => nofun

theorem keepsLists_serialize : KeepsLists Value.serialize where
  list items := by rw [Value.serialize, serializeItems_eq_map]
  scalar v hv js := by
    cases v with
    | list items => exact absurd rfl hv
    | float x =>
      unfold Value.serialize
      split <;> nofun
    | _ => nofun

/-! ## What stands there -/

/-- What a part of a value is written as in the first document and in the second one. -/
inductive Value.Documents : Value → Json → Json → Prop where
  | nil : Documents .nil .null .null
  | bool (b : Bool) : Documents (.bool b) (.bool b) (.bool b)
  | integer (n : Int64) : Documents (.integer n) (.whole n.toInt) (.whole n.toInt)
  | float {x : Float} : isFinite x = true → Documents (.float x) (.float x) (.float x)
  | nan {x : Float} : Decimal.parts x.toBits = .nan → Documents (.float x) (.str "nan") .null
  | infinite {x : Float} {negative : Bool} : Decimal.parts x.toBits = .infinite negative →
      Documents (.float x) (.str (if negative then "-inf" else "inf")) .null
  | text (s : String) : Documents (.text s) (.str s) (.str s)
  /-- The items are at places of their own. -/
  | list {items : List Value} {as bs : List Json} : as.length = items.length →
      bs.length = items.length → Documents (.list items) (.arr as) (.arr bs)
  | displayed {v : Value} : v.kind ∈ [Kind.function, .native, .module, .deferred] →
      Documents v (.str v.display) (.str v.display)

theorem documents_float (x : Float) :
    (Value.float x).Documents (Value.float x).toJson (Value.float x).serialize := by
  rw [Value.toJson, Value.serialize]
  cases h : Decimal.parts x.toBits with
  | nan =>
    have hfinite : isFinite x = false := by rw [isFinite, h]
    have hdisplay : (Value.float x).display = "nan" := by
      simp [Value.display, Value.repr, Decimal.Style.render, Decimal.Style.renderParts, h]
    rw [hfinite, hdisplay]
    exact .nan h
  | infinite negative =>
    have hfinite : isFinite x = false := by rw [isFinite, h]
    have hdisplay : (Value.float x).display = if negative then "-inf" else "inf" := by
      simp [Value.display, Value.repr, Decimal.Style.render, Decimal.Style.renderParts, h]
    rw [hfinite, hdisplay]
    exact .infinite h
  | finite s m q =>
    have hfinite : isFinite x = true := by rw [isFinite, h]
    rw [hfinite]
    exact .float hfinite

theorem documents (v : Value) : v.Documents v.toJson v.serialize := by
  cases v with
  | nil => exact .nil
  | bool b => exact .bool b
  | integer n => exact .integer n
  | float x => exact documents_float x
  | text s => exact .text s
  | list items =>
    rw [keepsLists_toJson.list, keepsLists_serialize.list]
    exact .list (List.length_map _) (List.length_map _)
  | function f home scope => exact .displayed (by simp [Value.kind])
  | native n => exact .displayed (by simp [Value.kind])
  | module serial name members => exact .displayed (by simp [Value.kind])
  | deferred serial body locals file scope => exact .displayed (by simp [Value.kind])

/-! ## Where both are the same -/

/-- All doubles inside of the value are finite. -/
def Value.AllFinite (v : Value) : Prop :=
  ∀ (path : List Nat) (x : Float), v.at? path = some (.float x) → isFinite x = true

mutual
theorem Value.toJson_eq_serialize : ∀ v : Value, v.AllFinite → v.toJson = v.serialize
  | .nil, _ | .bool _, _ | .integer _, _ | .text _, _ | .function _ _ _, _ | .native _, _
  | .module _ _ _, _ | .deferred _ _ _ _ _, _ => rfl
  | .float x, h => by rw [Value.toJson, Value.serialize, if_pos (h [] x rfl), if_pos (h [] x rfl)]
  | .list items, h =>
    congrArg Json.arr (jsonItems_eq_serializeItems items fun i path x hx => h (i :: path) x hx)

theorem jsonItems_eq_serializeItems : ∀ items : List Value,
    (∀ (i : Nat) (path : List Nat) (x : Float),
      items[i]?.bind (Value.at? path) = some (.float x) → isFinite x = true) →
    jsonItems items = serializeItems items
  | [], _ => rfl
  | v :: vs, h => by
    rw [jsonItems, serializeItems, v.toJson_eq_serialize (h 0),
      jsonItems_eq_serializeItems vs fun i => h (i + 1)]
end

theorem isFinite_of_documents {x : Float} {j : Json} (h : (Value.float x).Documents j j) :
    isFinite x = true := by
  cases h with
  | float hx => exact hx
  | displayed hkind => simp [Value.kind] at hkind

/-- The two documents of a value have the places of the value and no others. What stands at one of
them is the same in both, but the name of a double that is not finite in the first and null in the
second, and so the documents are equal exactly if the value has no such doubles. -/
theorem documents_agree (v : Value) :
    KeepsLists Value.toJson ∧ KeepsLists Value.serialize ∧
    (∀ path : List Nat, v.at? path = none →
      v.toJson.at? path = none ∧ v.serialize.at? path = none) ∧
    (∀ (path : List Nat) (w : Value), v.at? path = some w →
      ∃ a b : Json, v.toJson.at? path = some a ∧ v.serialize.at? path = some b ∧
        w.Documents a b) ∧
    (v.toJson = v.serialize ↔ v.AllFinite) := by
  have hfirst (path : List Nat) := keepsLists_toJson.at? path v
  have hsecond (path : List Nat) := keepsLists_serialize.at? path v
  refine ⟨keepsLists_toJson, keepsLists_serialize, fun path h => ?_, fun path w h => ?_,
    fun h path x hx => ?_, v.toJson_eq_serialize⟩
  · rw [hfirst, hsecond, h]
    exact ⟨rfl, rfl⟩
  · rw [hfirst, hsecond, h]
    exact ⟨_, _, rfl, rfl, documents w⟩
  · have hboth : (Value.float x).toJson = (Value.float x).serialize := by
      have hplace := hsecond path
      rw [← h, hfirst, hx] at hplace
      exact Option.some.inj hplace
    have hdocuments := documents (.float x)
    rw [← hboth] at hdocuments
    exact isFinite_of_documents hdocuments

namespace Documents

/-- A text that says `nan` is the same in both documents, a double that is not a number is not. -/
theorem documents_agree_nan :
    (∃ a b : Json, (Value.list [.text "nan", .list [.float (0.0 / 0.0)]]).toJson.at? [1, 0] =
        some a ∧
      (Value.list [.text "nan", .list [.float (0.0 / 0.0)]]).serialize.at? [1, 0] = some b ∧
      (Value.float (0.0 / 0.0)).Documents a b) ∧
    (Value.list [.text "nan", .list [.float (0.0 / 0.0)]]).toJson ≠
      (Value.list [.text "nan", .list [.float (0.0 / 0.0)]]).serialize := by
  obtain ⟨-, -, -, hplaces, hequal⟩ :=
    documents_agree (.list [.text "nan", .list [.float (0.0 / 0.0)]])
  refine ⟨hplaces [1, 0] _ rfl, fun h => ?_⟩
  have hnan : isFinite (0.0 / 0.0) = false := by decide +kernel
  exact absurd ((hequal.mp h [1, 0] _ rfl).symm.trans hnan) (by decide)

end Documents
end Lispbox
