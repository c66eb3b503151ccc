import SchemaCompiler.Proofs.Numerals
import SchemaCompiler.Schema.Document

namespace SchemaCompiler.Schema

open Value (valueAt?)

def itemAt? (segment : String) : (index : Nat) → (items : List Value) → Option Value
  | _, [] => none
  | index, v :: rest => if toString index = segment then some v else itemAt? segment (index + 1) rest

def stepTo? (segment : String) : Value → Option Value
  | .record entries => valueAt? segment entries
  | .list items => itemAt? segment 0 items
  | _ => none

def at? : (place : List String) → Value → Option Value
  | [], v => some v
  | segment :: rest, v => (stepTo? segment v).bind (at? rest)

def onward (path : String) (place : List String) : String := path ++ String.join (place.map ("/" ++ ·))

def pathTo (place : List String) : String := onward "#" place

def segments (path : String) : List String := (path.toList.splitOn '/').map String.ofList

def target? (path : String) (document : Value) : Option Value :=
  match segments path with
  | "#" :: place => at? place document
  | _ => none

theorem itemAt?_toString (base index : Nat) (items : List Value) :
    itemAt? (toString (base + index)) base items = items[index]? := by
  induction items generalizing base index with
  | nil => rfl
  | cons v rest ih =>
    cases index with
    | zero => exact if_pos rfl
    | succ index =>
      have hne : toString base ≠ toString (base + (index + 1)) := by
        intro h
        have := toString_injective h
        omega
      rw [itemAt?, if_neg hne, List.getElem?_cons_succ, ← ih (base + 1) index, Nat.add_right_comm]
      rfl

theorem at?_append (place more : List String) (v : Value) :
    at? (place ++ more) v = (at? place v).bind (at? more) := by
  induction place generalizing v with
  | nil => rfl
  | cons segment rest ih =>
    rw [List.cons_append, at?, at?, Option.bind_assoc]
    congr 1
    funext w
    exact ih w

theorem onward_append (path : String) (place more : List String) :
    onward path (place ++ more) = onward (onward path place) more := by
  rw [onward, onward, onward, List.map_append, String.join_append, String.append_assoc]

theorem onward_single (path segment : String) : onward path [segment] = path ++ "/" ++ segment := by
  rw [onward, List.map_cons, List.map_nil, String.join_cons, String.join_nil, String.append_empty,
    String.append_assoc]

theorem onward_pair (path first second : String) :
    onward path [first, second] = path ++ "/" ++ first ++ "/" ++ second := by
  rw [← onward_single, ← onward_single, ← onward_append]
  rfl

theorem slash_not_mem_toString (index : Nat) : '/' ∉ (toString index).toList := by
  intro h
  rw [Nat.toString_eq_repr, Nat.toList_repr] at h
  exact absurd (isDigit_of_mem_toDigits h) (by decide)

def Slashless (place : List String) : Prop := ∀ segment ∈ place, '/' ∉ segment.toList

theorem slashless_pair {first second : String} :
    Slashless [first, second] ↔ '/' ∉ first.toList ∧ '/' ∉ second.toList := by
  simp only [Slashless, List.forall_mem_cons, List.not_mem_nil, false_implies, implies_true, and_true]

theorem splitOn_join (start : List Char) (hstart : '/' ∉ start) {place : List String}
    (h : Slashless place) :
    (start ++ (String.join (place.map ("/" ++ ·))).toList).splitOn '/' =
      start :: place.map String.toList := by
  -- Past the first slash a segment is what the rest starts with.
  induction place generalizing start with
  | nil => simpa using List.splitOn_eq_singleton hstart
  | cons segment rest ih =>
    have hsegment := ih segment.toList (h segment (by simp)) fun s hs => h s (List.mem_cons_of_mem _ hs)
    rw [List.map_cons, String.join_cons, String.toList_append, String.toList_append]
    change (start ++ '/' :: (segment.toList ++ _)).splitOn '/' = _
    rw [List.splitOn_append_cons_self_of_not_mem hstart, hsegment, List.map_cons]

theorem segments_pathTo {place : List String} (h : Slashless place) :
    segments (pathTo place) = "#" :: place := by
  have hsplit := splitOn_join ['#'] (by decide) h
  rw [segments, pathTo, onward, String.toList_append]
  change ((['#'] ++ _).splitOn '/').map String.ofList = _
  rw [hsplit, List.map_cons, List.map_map]
  simp [Function.comp_def]

theorem pathTo_injective {place other : List String} (h : Slashless place) (ho : Slashless other)
    (heq : pathTo place = pathTo other) : place = other := by
  have hsegments := segments_pathTo h
  rw [heq, segments_pathTo ho] at hsegments
  exact (List.cons.inj hsegments).2.symm

theorem target?_pathTo {place : List String} (h : Slashless place) (document : Value) :
    target? (pathTo place) document = at? place document := by
  rw [target?, segments_pathTo h]
  rfl

end SchemaCompiler.Schema
