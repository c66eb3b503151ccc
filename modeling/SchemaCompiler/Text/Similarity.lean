namespace SchemaCompiler.Text

def commonStart : List Char → List Char → Nat
  | a :: as, b :: bs => if a = b then commonStart as bs + 1 else 0
  | _, _ => 0

structure SharedBlock where
  left : Nat
  right : Nat
  size : Nat

/-- The longest shared block; of equally long ones the one that starts first in the first text, and
then in the second. -/
def longestBlock (a b : List Char) : SharedBlock :=
  (List.range a.length).foldl (fun best i =>
    (List.range b.length).foldl (fun best j =>
      let size := commonStart (a.drop i) (b.drop j)
      if best.size < size then ⟨i, j, size⟩ else best) best) ⟨0, 0, 0⟩

def sharedWithin : (fuel : Nat) → (a b : List Char) → Nat
  | 0, _, _ => 0
  | fuel + 1, a, b =>
    let block := longestBlock a b
    if block.size = 0 then 0
    else sharedWithin fuel (a.take block.left) (b.take block.right) + block.size
      + sharedWithin fuel (a.drop (block.left + block.size)) (b.drop (block.right + block.size))

structure Similarity where
  shared : Nat
  total : Nat

def similarity (a b : String) : Similarity :=
  ⟨sharedWithin a.length a.toList b.toList, a.length + b.length⟩

def Similarity.isClose (s : Similarity) : Bool := 3 * s.total ≤ 10 * s.shared

def Similarity.below (s t : Similarity) : Bool := s.shared * t.total < t.shared * s.total

def goesBefore (x y : Similarity × String) : Bool :=
  y.1.below x.1 || (!x.1.below y.1 && y.2 < x.2)

def closest (candidates : List String) (s : String) : List String :=
  let close := (candidates.map fun c => (similarity c s, c)).filter (·.1.isClose)
  let best := (close.mergeSort goesBefore).take 3
  (best.map (·.2)).mergeSort fun c d => decide (c ≤ d)

end SchemaCompiler.Text
