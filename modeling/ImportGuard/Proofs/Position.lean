import ImportGuard.Position

/-!
# Lines and columns by counting

The line and the column of an offset are reached by going through the bytes before it.  They are also
found by counting: the line has as many line feeds before it as `row` says (`line_ofOffset`), and the
column counts from the `lineStart` (`column_ofOffset`).
-/

namespace ImportGuard.Place

/-- How many lines end before an offset. -/
def row (bytes : List UInt8) (offset : Nat) : Nat :=
  (bytes.take offset).count lineFeed

/-- The offset at which the line of an offset starts. -/
def lineStart (bytes : List UInt8) (offset : Nat) : Nat :=
  let before := bytes.take offset
  before.length - (before.reverse.takeWhile (· != lineFeed)).length

theorem walk_fst (line column count : Nat) (bytes : List UInt8) :
    (walk line column count bytes).1 = line + row bytes count := by
  induction bytes generalizing line column count with
  | nil => cases count <;> simp [walk, row]
  | cons b rest ih =>
    cases count with
    | zero => simp [walk, row]
    | succ count =>
      by_cases hb : b = lineFeed
      · simp only [walk, hb, if_true, ih]
        simp only [row, List.take_succ_cons, List.count_cons_self]
        omega
      · simp only [walk, hb, if_false, ih]
        simp only [row, List.take_succ_cons, List.count_cons_of_ne hb]

theorem lineStart_le (bytes : List UInt8) (count : Nat) : lineStart bytes count ≤ count := by
  simp only [lineStart, List.length_take]
  omega

theorem lineStart_eq_zero {bytes : List UInt8} {count : Nat} (h : row bytes count = 0) :
    lineStart bytes count = 0 := by
  have hall : ∀ b ∈ (bytes.take count).reverse, (b != lineFeed) = true := by
    intro b hb
    have hn := List.count_eq_zero.1 h
    simp only [bne_iff_ne, ne_eq]
    intro he
    exact hn (he ▸ List.mem_reverse.1 hb)
  have htake : ((bytes.take count).reverse ++ []).takeWhile (· != lineFeed) =
      (bytes.take count).reverse ++ [].takeWhile (· != lineFeed) :=
    List.takeWhile_append_of_pos hall
  simp only [List.append_nil, List.takeWhile_nil] at htake
  simp only [lineStart, htake, List.length_reverse]
  omega

theorem lineStart_cons {b : UInt8} {rest : List UInt8} {count : Nat}
    (h : b = lineFeed ∨ row rest count ≠ 0) :
    lineStart (b :: rest) (count + 1) = lineStart rest count + 1 := by
  simp only [lineStart, List.take_succ_cons, List.reverse_cons, List.length_cons,
    List.takeWhile_append]
  have hle : ((rest.take count).reverse.takeWhile (· != lineFeed)).length ≤
      (rest.take count).length := by
    have := (List.takeWhile_prefix (l := (rest.take count).reverse) (· != lineFeed)).length_le
    simpa using this
  split
  · rename_i hfull
    rcases h with rfl | hrow
    · simp only [List.takeWhile_cons, bne_self_eq_false]
      simp only [List.length_append, List.length_reverse, Bool.false_eq_true, if_false,
        List.length_nil] at *
      omega
    · exfalso
      apply hrow
      have hself : (rest.take count).reverse.takeWhile (· != lineFeed) =
          (rest.take count).reverse :=
        (List.takeWhile_prefix _).eq_of_length hfull
      refine List.count_eq_zero.2 fun hm => ?_
      have hall := List.all_takeWhile (p := (· != lineFeed)) (l := (rest.take count).reverse)
      rw [hself, List.all_eq_true] at hall
      exact absurd (hall lineFeed (List.mem_reverse.2 hm)) (by simp)
  · omega

theorem walk_snd (line column count : Nat) (bytes : List UInt8) :
    (walk line column count bytes).2 =
      if row bytes count = 0 then column + count else count - lineStart bytes count + 1 := by
  induction bytes generalizing line column count with
  | nil => cases count <;> simp [walk, row]
  | cons b rest ih =>
    cases count with
    | zero => simp [walk, row]
    | succ count =>
      have hle := lineStart_le rest count
      by_cases hb : b = lineFeed
      · have hrow : row (b :: rest) (count + 1) ≠ 0 := by
          simp [row, hb]
        rw [if_neg hrow, lineStart_cons (Or.inl hb)]
        simp only [walk, hb, if_true, ih]
        split
        · rename_i hz
          have := lineStart_eq_zero hz
          omega
        · omega
      · have hrow : row (b :: rest) (count + 1) = row rest count := by
          simp [row, List.count_cons_of_ne hb]
        simp only [walk, hb, if_false, ih, hrow]
        split
        · omega
        · rename_i hz
          rw [lineStart_cons (Or.inr hz)]
          omega

theorem line_ofOffset (bytes : List UInt8) (offset : Nat) :
    (ofOffset bytes offset).line = row bytes offset + 1 := by
  simp only [ofOffset, walk_fst]
  omega

theorem column_ofOffset (bytes : List UInt8) (offset : Nat) :
    (ofOffset bytes offset).column = offset - lineStart bytes offset + 1 := by
  simp only [ofOffset, walk_snd]
  split
  · rename_i hz
    rw [lineStart_eq_zero hz]
    omega
  · rfl

end ImportGuard.Place
