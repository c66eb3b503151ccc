import Mathlib.Data.List.TakeWhile

/-!
Patterns over texts. A pattern may fit the front of a text in several ways, which are tried from the
best on: a run takes as many characters as it can and then gives them back one by one. The best way
at the first place where there is one counts. A run is never shortened for the sake of what follows
if that cannot begin with a character of the run.
-/

namespace SchemaCompiler.Text

/-- One character of a class, a run of them, a pattern after another, a pattern or else another, and a
pattern whose text is kept. -/
inductive Pattern where
  | one (p : Char → Bool)
  | many (p : Char → Bool)
  | seq (a b : Pattern)
  | either (a b : Pattern)
  | keep (a : Pattern)

structure Fit where
  taken : List Char
  kept : List (List Char)
  rest : List Char
deriving DecidableEq, Repr

def Fit.next (x y : Fit) : Fit := ⟨x.taken ++ y.taken, x.kept ++ y.kept, y.rest⟩

def Fit.keeping (x : Fit) : Fit := { x with kept := x.taken :: x.kept }

def Fit.after (c : Char) (x : Fit) : Fit := { x with taken := c :: x.taken }

def runFits (p : Char → Bool) : List Char → List Fit
  | [] => [⟨[], [], []⟩]
  | c :: rest =>
    if p c then (runFits p rest).map (.after c) ++ [⟨[], [], c :: rest⟩] else [⟨[], [], c :: rest⟩]

namespace Pattern

def run (p : Char → Bool) : Pattern := .seq (.one p) (.many p)

def fits : Pattern → List Char → List Fit
  | .one _, [] => []
  | .one p, c :: rest => if p c then [⟨[c], [], rest⟩] else []
  | .many p, s => runFits p s
  | .seq a b, s => (a.fits s).flatMap fun x => (b.fits x.rest).map x.next
  | .either a b, s => a.fits s ++ b.fits s
  | .keep a, s => (a.fits s).map .keeping

def fit? (a : Pattern) (s : List Char) : Option Fit := (a.fits s).head?

def search (a : Pattern) : List Char → Option Fit
  | [] => a.fit? []
  | c :: rest => (a.fit? (c :: rest)).or (a.search rest)

/-- What the pattern takes from place to place, where each search begins at the end of the fit before.
The first `skip` characters belong to that fit. -/
def findFrom (a : Pattern) : (skip : Nat) → List Char → List (List Char)
  | _, [] => []
  | skip + 1, _ :: rest => a.findFrom skip rest
  | 0, c :: rest =>
    match a.fit? (c :: rest) with
    | none => a.findFrom 0 rest
    | some x => x.taken :: a.findFrom (x.taken.length - 1) rest

def findAll (a : Pattern) (s : List Char) : List (List Char) := a.findFrom 0 s

end Pattern

theorem split_run {p : Char → Bool} {s rest : List Char} (hs : ∀ c ∈ s, p c = true)
    (hrest : ∀ c ∈ rest.head?, p c = false) :
    (s ++ rest).takeWhile p = s ∧ (s ++ rest).dropWhile p = rest := by
  rw [List.takeWhile_append_of_pos hs, List.dropWhile_append_of_pos hs]
  cases rest with
  | nil => exact ⟨List.append_nil s, rfl⟩
  | cons c rest =>
    have hc : ¬p c = true := by simp [hrest c rfl]
    rw [List.takeWhile_cons_of_neg hc, List.dropWhile_cons_of_neg hc, List.append_nil]
    exact ⟨rfl, rfl⟩

theorem head?_runFits (p : Char → Bool) (s : List Char) :
    (runFits p s).head? = some ⟨s.takeWhile p, [], s.dropWhile p⟩ := by
  induction s with
  | nil => rfl
  | cons c rest ih =>
    rw [runFits]
    by_cases hc : p c = true
    · rw [if_pos hc, List.head?_append, List.head?_map, ih, List.takeWhile_cons_of_pos hc,
        List.dropWhile_cons_of_pos hc]
      rfl
    · rw [if_neg hc, List.takeWhile_cons_of_neg hc, List.dropWhile_cons_of_neg hc]
      rfl

theorem split_of_mem_runFits {p : Char → Bool} {s : List Char} {x : Fit} (h : x ∈ runFits p s) :
    x.taken ++ x.rest = s := by
  induction s generalizing x with
  | nil =>
    cases List.mem_singleton.mp h
    rfl
  | cons c rest ih =>
    rw [runFits] at h
    split at h
    · rcases List.mem_append.mp h with h | h
      · obtain ⟨y, hy, rfl⟩ := List.mem_map.mp h
        exact congrArg (c :: ·) (ih hy)
      · cases List.mem_singleton.mp h
        rfl
    · cases List.mem_singleton.mp h
      rfl

theorem flatMap_runFits {α : Type} {p : Char → Bool} {f : Fit → List α}
    (h : ∀ x c rest, x.rest = c :: rest → p c = true → f x = []) (s : List Char) :
    (runFits p s).flatMap f = f ⟨s.takeWhile p, [], s.dropWhile p⟩ := by
  induction s generalizing f with
  | nil => simp [runFits]
  | cons c rest ih =>
    rw [runFits]
    by_cases hc : p c = true
    · rw [if_pos hc, List.flatMap_append, List.flatMap_singleton, h _ c rest rfl hc, List.append_nil,
        List.flatMap_map, ih fun x => h (x.after c), List.takeWhile_cons_of_pos hc,
        List.dropWhile_cons_of_pos hc]
      rfl
    · rw [if_neg hc, List.flatMap_singleton, List.takeWhile_cons_of_neg hc,
        List.dropWhile_cons_of_neg hc]

namespace Pattern

variable {a b : Pattern} {s : List Char} {x y : Fit}

theorem split_of_mem_fits (h : x ∈ a.fits s) : x.taken ++ x.rest = s := by
  induction a generalizing s x with
  | one p =>
    cases s with
    | nil => cases h
    | cons c rest =>
      rw [fits] at h
      split at h
      · cases List.mem_singleton.mp h
        rfl
      · cases h
  | many p => exact split_of_mem_runFits h
  | seq a b iha ihb =>
    obtain ⟨y, hy, h⟩ := List.mem_flatMap.mp h
    obtain ⟨z, hz, rfl⟩ := List.mem_map.mp h
    calc (y.next z).taken ++ (y.next z).rest = y.taken ++ (z.taken ++ z.rest) := List.append_assoc ..
      _ = y.taken ++ y.rest := by rw [ihb hz]
      _ = s := iha hy
  | either a b iha ihb =>
    rcases List.mem_append.mp h with h | h
    · exact iha h
    · exact ihb h
  | keep a ih =>
    obtain ⟨y, hy, rfl⟩ := List.mem_map.mp h
    have hy := ih hy
    exact hy

theorem split_of_fit? (h : a.fit? s = some x) : x.taken ++ x.rest = s :=
  split_of_mem_fits (List.mem_of_head? h)

theorem fit?_one_of_pos {p : Char → Bool} {c : Char} {rest : List Char} (h : p c = true) :
    (one p).fit? (c :: rest) = some ⟨[c], [], rest⟩ := by
  rw [fit?, fits, if_pos h]
  rfl

theorem fit?_one_of_neg {p : Char → Bool} {c : Char} {rest : List Char} (h : ¬p c = true) :
    (one p).fit? (c :: rest) = none := by
  rw [fit?, fits, if_neg h]
  rfl

theorem fit?_many (p : Char → Bool) (s : List Char) :
    (many p).fit? s = some ⟨s.takeWhile p, [], s.dropWhile p⟩ := head?_runFits p s

theorem fit?_seq (ha : a.fit? s = some x) (hb : b.fit? x.rest = some y) :
    (seq a b).fit? s = some (x.next y) := by
  rw [fit?, List.head?_eq_some_iff] at ha hb
  obtain ⟨as, ha⟩ := ha
  obtain ⟨bs, hb⟩ := hb
  rw [fit?, fits, ha, List.flatMap_cons, hb]
  rfl

theorem fit?_seq_none (ha : a.fit? s = none) : (seq a b).fit? s = none := by
  rw [fit?, List.head?_eq_none_iff] at ha
  rw [fit?, fits, ha]
  rfl

theorem fit?_either (a b : Pattern) (s : List Char) :
    (either a b).fit? s = (a.fit? s).or (b.fit? s) := List.head?_append

theorem fit?_keep (ha : a.fit? s = some x) : (keep a).fit? s = some x.keeping := by
  rw [fit?, fits, List.head?_map]
  exact congrArg (Option.map Fit.keeping) ha

theorem fit?_one_many_of_pos {p q : Char → Bool} {c : Char} {rest : List Char} (h : p c = true) :
    (seq (one p) (many q)).fit? (c :: rest) =
      some ⟨c :: rest.takeWhile q, [], rest.dropWhile q⟩ :=
  fit?_seq (fit?_one_of_pos h) (fit?_many q rest)

theorem fit?_one_many_of_neg {p q : Char → Bool} {c : Char} {rest : List Char} (h : ¬p c = true) :
    (seq (one p) (many q)).fit? (c :: rest) = none := fit?_seq_none (fit?_one_of_neg h)

theorem fits_run_seq {p : Char → Bool} (hb : ∀ c rest, p c = true → b.fits (c :: rest) = [])
    {c : Char} {rest : List Char} (hc : p c = true) :
    (seq (keep (run p)) b).fits (c :: rest) = (b.fits (rest.dropWhile p)).map
      (Fit.next ⟨c :: rest.takeWhile p, [c :: rest.takeWhile p], rest.dropWhile p⟩) := by
  have hword : (keep (run p)).fits (c :: rest) = (runFits p rest).map fun x => (x.after c).keeping := by
    rw [fits, run, fits, fits, if_pos hc, List.flatMap_singleton, fits, List.map_map]
    rfl
  rw [fits, hword, List.flatMap_map, flatMap_runFits]
  · rfl
  · intro x d more hx hd
    change (b.fits x.rest).map _ = []
    rw [hx, hb d more hd, List.map_nil]

theorem findFrom_eq_drop (a : Pattern) (skip : Nat) (s : List Char) :
    a.findFrom skip s = a.findAll (s.drop skip) := by
  induction s generalizing skip with
  | nil => simp [findAll, findFrom]
  | cons c rest ih =>
    cases skip with
    | zero => rfl
    | succ skip => rw [findFrom, ih, List.drop_succ_cons]

theorem findAll_of_fit? (h : a.fit? s = some x) (hne : x.taken ≠ []) :
    a.findAll s = x.taken :: a.findAll x.rest := by
  obtain ⟨taken, kept, rest⟩ := x
  obtain ⟨c, more, rfl⟩ := List.exists_cons_of_ne_nil hne
  have hs : s = c :: (more ++ rest) := (split_of_fit? h).symm
  subst hs
  rw [findAll, findFrom, h]
  change _ :: a.findFrom more.length (more ++ rest) = _
  rw [findFrom_eq_drop, List.drop_left]

theorem findAll_of_none {c : Char} {rest : List Char} (h : a.fit? (c :: rest) = none) :
    a.findAll (c :: rest) = a.findAll rest := by
  rw [findAll, findFrom, h]
  rfl

end Pattern

end SchemaCompiler.Text
