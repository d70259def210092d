/-!
# Similarity of words

The Jaro similarity of two words: characters match when they are equal and no further
apart than half the longer length less one, each character matching at most once; with
`m` matches and `t` half the number of matched characters out of order, the similarity
is the mean of `m / |a|`, `m / |b|` and `(m - t) / m`, and 0 without matches. Two empty
words are identical.

A word is suggested for another when their similarity exceeds 0.7; of several, the most
similar comes last.
-/

namespace TransitFeed

/-- The positions of `b` matched by the characters of `a`, in the order of `a`. -/
def jaroMatches (a b : List Char) : List (Nat × Nat) :=
  let range := (max a.length b.length / 2) - 1
  let (_, pairs) := a.zipIdx.foldl (fun (used, pairs) (c, i) =>
    let lo := i - range
    let hi := min b.length (i + range + 1)
    match (List.range' lo (hi - lo)).find? (fun j => !used.contains j && b[j]? == some c) with
    | some j => (j :: used, pairs ++ [(i, j)])
    | none => (used, pairs)) (([] : List Nat), ([] : List (Nat × Nat)))
  pairs

/-- The Jaro similarity of two words. -/
def jaro (a b : String) : Float :=
  let (xs, ys) := (a.toList, b.toList)
  if xs.isEmpty && ys.isEmpty then 1
  else if xs.isEmpty || ys.isEmpty then 0
  else
    let pairs := jaroMatches xs ys
    let m := pairs.length
    if m = 0 then 0
    else
      let fromA := pairs.map fun (i, _) => xs.getD i ' '
      let fromB := ((pairs.map (·.2)).mergeSort (· ≤ ·)).map fun j => ys.getD j ' '
      let t := ((fromA.zip fromB).filter fun (x, y) => x != y).length / 2
      let mf := m.toFloat
      (mf / xs.length.toFloat + mf / ys.length.toFloat + (m - t).toFloat / mf) / 3

/-- The candidates similar enough to a word, the most similar last. -/
def similarWords (word : String) (candidates : List String) : List String :=
  let scored := (candidates.map fun c => (jaro word c, c)).filter fun (s, _) => s > 0.7
  (scored.mergeSort fun x y => x.1 ≤ y.1).map (·.2)

end TransitFeed
