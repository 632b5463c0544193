import Mathlib.Data.List.DropRight
import GraphGateway.Document.BlockString
import GraphGateway.Text.Pieces

/-!
This module contains the rule by which the GraphQL specification removes the indentation of a block
string, and the bodies for which `BlockString.value` is the value of the rule.

It is not for two kinds of lines: those of only spaces and tabs that are shorter than the common
indentation, which are kept, and those of other Unicode white space at an end, which are removed.
-/

namespace GraphGateway
namespace BlockString

/-! ### The rule -/

def separated (text : List Char) : List (List Char) :=
  match text with
  | [] => [[]]
  | '\n' :: rest => [] :: separated rest
  | '\r' :: '\n' :: rest => [] :: separated rest
  | c :: rest => Text.joinFirst c (separated rest)

/-- The least indentation of the lines after the first that are not all indentation, or zero. -/
def margin (lines : List (List Char)) : Nat :=
  ((lines.tail.filter fun line => !line.all isIndent).map indentation).min?.getD 0

def unindent (lines : List (List Char)) : List (List Char) :=
  match lines with
  | [] => []
  | first :: rest => first :: rest.map (List.drop (margin lines))

def trimEnds {α : Type} (p : α → Bool) (xs : List α) : List α :=
  (xs.dropWhile p).rdropWhile p

/-- The value that the rule gives to a block string with the given body. -/
def ruled (raw : List Char) : List Char :=
  ['\n'].intercalate (trimEnds (List.all · isIndent) (unindent (separated raw)))

def kept (raw : List Char) : List (List Char) :=
  trimEnds (List.all · isIndent) (separated raw)

/-- The rule and `value` treat all lines of the body alike. -/
structure Regular (raw : List Char) : Prop where
  first : ∀ line ∈ (kept raw).head?, ¬ isBlankLine line
  last : ∀ line ∈ (kept raw).getLast?, ¬ isBlankLine line
  short : ∀ line ∈ kept raw, line.all isIndent → line = [] ∨ margin (separated raw) ≤ line.length

/-! ### Both ends of a list -/

section TrimEnds

variable {α β : Type} (p : α → Bool)

theorem trimEnds_sublist (xs : List α) : (trimEnds p xs).Sublist xs :=
  (List.rdropWhile_prefix p _).sublist.trans (List.dropWhile_sublist p)

theorem rdropWhile_append {ys : List α} (hys : ∀ x ∈ ys, p x) (xs : List α)
    : (xs ++ ys).rdropWhile p = xs.rdropWhile p := by
  unfold List.rdropWhile
  rw [List.reverse_append, List.dropWhile_append_of_pos (by simpa using hys)]

theorem trimEnds_append {xs zs : List α} (hxs : ∀ x ∈ xs, p x) (hzs : ∀ x ∈ zs, p x) (ys : List α)
    : trimEnds p (xs ++ ys ++ zs) = trimEnds p ys := by
  unfold trimEnds
  rw [List.append_assoc, List.dropWhile_append_of_pos hxs, List.dropWhile_append]
  split
  . next hempty =>
    rw [List.isEmpty_iff.mp hempty, List.dropWhile_eq_nil_iff.mpr hzs]
  . exact rdropWhile_append p hzs _

theorem exists_eq_append_trimEnds (xs : List α)
    : ∃ front back, xs = front ++ trimEnds p xs ++ back
        ∧ (∀ x ∈ front, p x) ∧ ∀ x ∈ back, p x := by
  refine ⟨xs.takeWhile p, (xs.dropWhile p).rtakeWhile p, ?_, fun _ => List.mem_takeWhile_imp,
    fun _ => List.mem_rtakeWhile_imp⟩
  rw [trimEnds, List.append_assoc, List.rdropWhile_append_rtakeWhile,
    List.takeWhile_append_dropWhile]

theorem trimEnds_eq_self_iff (xs : List α)
    : trimEnds p xs = xs ↔ (∀ x ∈ xs.head?, ¬ p x) ∧ ∀ x ∈ xs.getLast?, ¬ p x := by
  have hfront : xs.dropWhile p = xs ↔ ∀ x ∈ xs.head?, ¬ p x := by
    cases xs <;> simp
  have hback : xs.rdropWhile p = xs ↔ ∀ x ∈ xs.getLast?, ¬ p x := by
    cases xs using List.reverseRecOn <;> simp
  rw [← hfront, ← hback]
  refine ⟨fun h => ?_, fun ⟨hdrop, hrdrop⟩ => by rw [trimEnds, hdrop, hrdrop]⟩
  have hdrop : xs.dropWhile p = xs := by
    refine (List.dropWhile_sublist p).antisymm ?_
    nth_rewrite 1 [← h]
    exact (List.rdropWhile_prefix p _).sublist
  exact ⟨hdrop, by rwa [trimEnds, hdrop] at h⟩

theorem trimEnds_trimEnds (xs : List α) : trimEnds p (trimEnds p xs) = trimEnds p xs := by
  obtain ⟨front, back, hxs, hfront, hback⟩ := exists_eq_append_trimEnds p xs
  exact (trimEnds_append p hfront hback _).symm.trans (congrArg _ hxs.symm)

theorem dropWhile_congr {p q : α → Bool} {xs : List α} (h : ∀ x ∈ xs, p x = q x)
    : xs.dropWhile p = xs.dropWhile q := by
  induction xs with
  | nil => rfl
  | cons x xs ih =>
    obtain ⟨hx, hxs⟩ := List.forall_mem_cons.mp h
    rw [List.dropWhile_cons, List.dropWhile_cons, hx, ih hxs]

theorem trimEnds_congr {p q : α → Bool} {xs : List α} (h : ∀ x ∈ xs, p x = q x)
    : trimEnds p xs = trimEnds q xs := by
  unfold trimEnds List.rdropWhile
  rw [dropWhile_congr h, dropWhile_congr]
  exact fun x hx => h x ((List.dropWhile_sublist q).subset (List.mem_reverse.mp hx))

theorem trimEnds_map (f : β → α) (xs : List β)
    : trimEnds p (xs.map f) = (trimEnds (p ∘ f) xs).map f := by
  unfold trimEnds List.rdropWhile
  rw [List.dropWhile_map, ← List.map_reverse, List.dropWhile_map, ← List.map_reverse]

end TrimEnds

/-! ### Both sides of the rule on the same lines -/

def marked (lines : List (List Char)) : List (List Char × Nat) :=
  match lines with
  | [] => []
  | first :: rest => (first, 0) :: rest.map (·, margin lines)

theorem map_fst_marked (lines : List (List Char)) : (marked lines).map Prod.fst = lines := by
  cases lines <;> simp [marked, Function.comp_def]

theorem unindent_eq_map (lines : List (List Char))
    : unindent lines = (marked lines).map fun x => x.1.drop x.2 := by
  cases lines <;> simp [unindent, marked]

theorem indentation_lt_length_iff (line : List Char)
    : indentation line < line.length ↔ ¬ line.all isIndent := by
  have hprefix := List.takeWhile_prefix (p := isIndent) (l := line)
  rw [List.all_eq_true, ← List.takeWhile_eq_self_iff, ← Nat.not_le, not_iff_not]
  exact ⟨fun hle => hprefix.eq_of_length_le hle, fun h => by rw [indentation, h]⟩

theorem commonIndent_eq_margin (lines : List (List Char)) : commonIndent lines = margin lines := by
  unfold commonIndent margin
  rw [← List.filterMap_eq_filter, List.map_filterMap, List.drop_one]
  refine congrArg (fun indents => indents.min?.getD 0) (List.filterMap_congr fun line _ => ?_)
  simp only [indentation_lt_length_iff, Option.guard]
  by_cases hall : line.all isIndent <;> simp [hall]

theorem margin_append_nil (lines : List (List Char)) : margin (lines ++ [[]]) = margin lines := by
  cases lines <;> simp [margin]

theorem dedent_eq_map (lines : List (List Char))
    : dedent lines = (marked lines).map fun x => cut x.2 x.1 := by
  cases lines with
  | nil => rfl
  | cons first rest =>
    have hfirst : cut 0 first = first := by simp [cut]
    simp [dedent, marked, commonIndent_eq_margin, hfirst]

theorem cut_eq_drop_iff (n : Nat) (line : List Char)
    : cut n line = line.drop n ↔ line = [] ∨ n ≤ line.length := by
  unfold cut
  split
  . next hlt => rw [List.drop_of_length_le hlt.le, or_iff_left hlt.not_ge]
  . next hlt => simp [Nat.le_of_not_lt hlt]

theorem isIndent_of_mem_take {lines : List (List Char)} {x : List Char × Nat}
    (hx : x ∈ marked lines)
    : ∀ c ∈ x.1.take x.2, isIndent c := by
  cases lines with
  | nil => cases hx
  | cons first rest =>
    obtain rfl | hx := List.mem_cons.mp hx
    . simp
    . obtain ⟨line, hline, rfl⟩ := List.mem_map.mp hx
      by_cases hall : line.all isIndent
      . exact fun c hc => List.all_eq_true.mp hall c (List.mem_of_mem_take hc)
      . have hle : margin (first :: rest) ≤ indentation line := by
          refine List.min?_getD_le_of_mem ?_
          exact List.mem_map_of_mem (List.mem_filter.mpr ⟨hline, by simpa using hall⟩)
        have htake : line.take (margin (first :: rest)) <+: line.takeWhile isIndent :=
          List.prefix_of_prefix_length_le (List.take_prefix _ _) (List.takeWhile_prefix _)
            ((List.length_take_le _ _).trans hle)
        exact fun c hc => List.mem_takeWhile_imp (htake.subset hc)

theorem all_drop {p : Char → Bool} (hp : ∀ c, isIndent c → p c) {line : List Char} {n : Nat}
    (h : ∀ c ∈ line.take n, isIndent c)
    : (line.drop n).all p = line.all p := by
  have htake : (line.take n).all p := List.all_eq_true.mpr fun c hc => hp c (h c hc)
  conv_rhs => rw [← List.take_append_drop n line, List.all_append, htake, Bool.true_and]

theorem isBlank_of_isIndent (c : Char) (h : isIndent c) : Text.isBlank c := by
  unfold isIndent at h
  obtain rfl | rfl : c = ' ' ∨ c = '\t' := by simpa using h
  . rfl
  . rfl

theorem isBlankLine_cut {line : List Char} {n : Nat} (h : ∀ c ∈ line.take n, isIndent c)
    : isBlankLine (cut n line) = isBlankLine line := by
  unfold cut
  split
  . rfl
  . exact all_drop isBlank_of_isIndent h

theorem separated_eq_or (text : List Char)
    : separated text = splitLines text ∨ separated text = splitLines text ++ [[]] := by
  fun_induction splitLines text with
  | case1 => exact .inr rfl
  | case2 rest ih => simpa [separated] using ih
  | case3 rest ih => simpa [separated] using ih
  | case4 c rest hfeed hreturn hlines ih =>
    rw [hlines] at ih
    obtain h | h := ih <;> simp [separated, h, Text.joinFirst]
  | case5 c rest hfeed hreturn line lines hlines ih =>
    rw [hlines] at ih
    obtain h | h := ih <;> simp [separated, h, Text.joinFirst]

theorem not_mem_of_mem_separated {text line : List Char} (hline : line ∈ separated text)
    : '\n' ∉ line := by
  fun_induction separated text generalizing line with
  | case1 => simp_all
  | case2 rest ih | case3 rest ih =>
    obtain rfl | hline := List.mem_cons.mp hline
    . exact List.not_mem_nil
    . exact ih hline
  | case4 c rest hfeed hreturn ih =>
    have hne : '\n' ≠ c := fun h => hfeed h.symm
    cases hlines : separated rest with
    | nil => simp_all [Text.joinFirst]
    | cons first others =>
      rw [hlines] at ih hline
      obtain rfl | hline := List.mem_cons.mp hline
      . simpa [hne] using ih List.mem_cons_self
      . exact ih (List.mem_cons_of_mem _ hline)

theorem not_mem_of_mem_marked {text : List Char} {x : List Char × Nat}
    (hx : x ∈ marked (separated text))
    : '\n' ∉ x.1 := by
  have hline : x.1 ∈ (marked (separated text)).map Prod.fst := List.mem_map_of_mem hx
  rw [map_fst_marked] at hline
  exact not_mem_of_mem_separated hline

theorem dedent_append_nil (lines : List (List Char))
    : dedent (lines ++ [[]]) = dedent lines ++ [[]] := by
  cases lines with
  | nil => rfl
  | cons first rest =>
    have hmargin := margin_append_nil (first :: rest)
    rw [List.cons_append] at hmargin
    simp [dedent, commonIndent_eq_margin, hmargin, cut]

theorem intercalate_inj {xs ys : List (List Char)} (hxs : ∀ x ∈ xs, '\n' ∉ x)
    (hys : ∀ y ∈ ys, '\n' ∉ y) (hx : xs ≠ [[]]) (hy : ys ≠ [[]])
    (h : ['\n'].intercalate xs = ['\n'].intercalate ys)
    : xs = ys := by
  have hsplit := congrArg (List.splitOn '\n') h
  by_cases hxnil : xs = [] <;> by_cases hynil : ys = []
  . rw [hxnil, hynil]
  . rw [hxnil, List.splitOn_intercalate _ hys hynil] at hsplit
    exact absurd hsplit.symm hy
  . rw [hynil, List.splitOn_intercalate _ hxs hxnil] at hsplit
    exact absurd hsplit hx
  . rwa [List.splitOn_intercalate _ hxs hxnil, List.splitOn_intercalate _ hys hynil] at hsplit

/-! ### The value and the rule -/

def keptMarked (raw : List Char) : List (List Char × Nat) :=
  trimEnds (fun x => x.1.all isIndent) (marked (separated raw))

theorem map_fst_keptMarked (raw : List Char) : (keptMarked raw).map Prod.fst = kept raw := by
  have hmap := trimEnds_map (List.all · isIndent) Prod.fst (marked (separated raw))
  rw [map_fst_marked] at hmap
  exact hmap.symm

theorem mem_marked_of_mem_keptMarked {raw : List Char} {x : List Char × Nat}
    (hx : x ∈ keptMarked raw)
    : x ∈ marked (separated raw) :=
  (trimEnds_sublist _ _).subset hx

theorem ruled_eq (raw : List Char)
    : ruled raw = ['\n'].intercalate ((keptMarked raw).map fun x => x.1.drop x.2) := by
  unfold ruled keptMarked
  rw [unindent_eq_map, trimEnds_map, trimEnds_congr]
  exact fun x hx => all_drop (fun _ => id) (isIndent_of_mem_take hx)

theorem trimEnds_keptMarked (raw : List Char)
    : trimEnds (fun x => isBlankLine x.1) (keptMarked raw)
        = trimEnds (fun x => isBlankLine x.1) (marked (separated raw)) := by
  have hblank (x : List Char × Nat) (h : x.1.all isIndent) : isBlankLine x.1 :=
    List.all_eq_true.mpr fun c hc => isBlank_of_isIndent c (List.all_eq_true.mp h c hc)
  obtain ⟨front, back, hlines, hfront, hback⟩ :=
    exists_eq_append_trimEnds (fun x => x.1.all isIndent) (marked (separated raw))
  rw [hlines,
    trimEnds_append _ (fun x hx => hblank x (hfront x hx)) (fun x hx => hblank x (hback x hx))]
  rfl

theorem value_eq (raw : List Char)
    : value raw = ['\n'].intercalate
        ((trimEnds (fun x => isBlankLine x.1) (keptMarked raw)).map fun x => cut x.2 x.1) := by
  have hvalue : value raw = ['\n'].intercalate (trimEnds isBlankLine (dedent (separated raw))) := by
    obtain h | h := separated_eq_or raw
    . rw [h]
      rfl
    . rw [h, dedent_append_nil]
      have hfront : ∀ line ∈ ([] : List (List Char)), isBlankLine line := by
        simp
      have hback : ∀ line ∈ [([] : List Char)], isBlankLine line := by
        simp [isBlankLine]
      exact congrArg _ (trimEnds_append isBlankLine hfront hback _).symm
  rw [hvalue, trimEnds_keptMarked, dedent_eq_map, trimEnds_map, trimEnds_congr]
  exact fun x hx => isBlankLine_cut (isIndent_of_mem_take hx)

theorem margin_of_mem_keptMarked {raw : List Char} {x : List Char × Nat} (hx : x ∈ keptMarked raw)
    (hall : x.1.all isIndent)
    : x.2 = margin (separated raw) := by
  have hx : x ∈ (marked (separated raw)).dropWhile fun x => x.1.all isIndent :=
    (List.rdropWhile_prefix _ _).subset hx
  cases hlines : separated raw with
  | nil =>
    rw [hlines] at hx
    cases hx
  | cons first rest =>
    rw [hlines, marked, List.dropWhile_cons] at hx
    have hrest : x ∈ rest.map (·, margin (first :: rest)) := by
      split at hx
      . exact (List.dropWhile_sublist _).subset hx
      . next hfirst =>
        obtain rfl | hx := List.mem_cons.mp hx
        . exact absurd hall hfirst
        . exact hx
    obtain ⟨line, _, rfl⟩ := List.mem_map.mp hrest
    rfl

theorem short_iff (raw : List Char)
    : (∀ line ∈ kept raw, line.all isIndent → line = [] ∨ margin (separated raw) ≤ line.length)
        ↔ ∀ x ∈ keptMarked raw, cut x.2 x.1 = x.1.drop x.2 := by
  rw [← map_fst_keptMarked, List.forall_mem_map]
  refine forall₂_congr fun x hx => ?_
  rw [cut_eq_drop_iff]
  by_cases hall : x.1.all isIndent
  . rw [margin_of_mem_keptMarked hx hall]
    simp [hall]
  . have hle : x.2 ≤ x.1.length := by
      refine Nat.le_of_not_lt fun hlt => hall ?_
      have htake := isIndent_of_mem_take (mem_marked_of_mem_keptMarked hx)
      rw [List.take_of_length_le hlt.le] at htake
      exact List.all_eq_true.mpr htake
    simp [hall, hle]

theorem regular_iff (raw : List Char)
    : Regular raw ↔ trimEnds (fun x => isBlankLine x.1) (keptMarked raw) = keptMarked raw
        ∧ ∀ x ∈ keptMarked raw, cut x.2 x.1 = x.1.drop x.2 := by
  have hfirst : (∀ line ∈ (kept raw).head?, ¬ isBlankLine line)
      ↔ ∀ x ∈ (keptMarked raw).head?, ¬ isBlankLine x.1 := by
    rw [← map_fst_keptMarked, List.head?_map]
    simp
  have hlast : (∀ line ∈ (kept raw).getLast?, ¬ isBlankLine line)
      ↔ ∀ x ∈ (keptMarked raw).getLast?, ¬ isBlankLine x.1 := by
    rw [← map_fst_keptMarked, List.getLast?_map]
    simp
  rw [trimEnds_eq_self_iff, ← hfirst, ← hlast, ← short_iff]
  exact ⟨fun ⟨first, last, short⟩ => ⟨⟨first, last⟩, short⟩,
    fun ⟨⟨first, last⟩, short⟩ => ⟨first, last, short⟩⟩

theorem map_trimEnds_ne {α : Type} {p : α → Bool} {f : α → List Char} {xs : List α}
    (h : ∀ x ∈ xs, f x = [] → p x)
    : (trimEnds p xs).map f ≠ [[]] := by
  intro hmap
  obtain ⟨x, hxs, hx⟩ := List.map_eq_singleton_iff.mp hmap
  have hmem : x ∈ xs := (trimEnds_sublist p xs).subset (hxs ▸ List.mem_singleton_self x)
  have hself := trimEnds_trimEnds p xs
  rw [hxs] at hself
  exact ((trimEnds_eq_self_iff p _).mp hself).1 x rfl (h x hmem hx)

theorem cut_subset (n : Nat) (line : List Char) : cut n line ⊆ line := by
  unfold cut
  split
  . exact List.Subset.refl _
  . exact List.drop_subset _ _

/--
The value is that of the rule exactly if the lines at both ends that hold more than spaces and tabs
hold more than other white space, and every line of spaces and tabs between them is empty or reaches
up to the indentation that is removed.
-/
theorem value_eq_ruled_iff (raw : List Char) : value raw = ruled raw ↔ Regular raw := by
  rw [regular_iff, value_eq, ruled_eq]
  constructor
  . intro h
    have hlines : ∀ x ∈ keptMarked raw, '\n' ∉ x.1 := fun x hx =>
      not_mem_of_mem_marked (mem_marked_of_mem_keptMarked hx)
    have htake : ∀ x ∈ keptMarked raw, ∀ c ∈ x.1.take x.2, isIndent c := fun x hx =>
      isIndent_of_mem_take (mem_marked_of_mem_keptMarked hx)
    -- No line has a line feed, and neither side is a single empty line, which trimming removes.
    have hmap := intercalate_inj ?_ ?_ ?_ ?_ h
    . have hkept : trimEnds (fun x => isBlankLine x.1) (keptMarked raw) = keptMarked raw :=
        (trimEnds_sublist _ _).eq_of_length (by simpa using congrArg List.length hmap)
      rw [hkept] at hmap
      exact ⟨hkept, List.map_inj_left.mp hmap⟩
    . refine List.forall_mem_map.mpr fun x hx hmem => ?_
      exact hlines x ((trimEnds_sublist _ _).subset hx) (cut_subset _ _ hmem)
    . exact List.forall_mem_map.mpr fun x hx hmem => hlines x hx (List.drop_subset _ _ hmem)
    . refine map_trimEnds_ne fun x hx hnil => ?_
      rw [← isBlankLine_cut (htake x hx), hnil]
      rfl
    . refine map_trimEnds_ne fun x hx hnil => ?_
      rw [← all_drop (fun _ => id) (isIndent_of_mem_take hx), hnil]
      rfl
  . rintro ⟨hkept, hcut⟩
    rw [hkept, List.map_congr_left hcut]

/-- A line of two spaces is kept between lines that are indented by four. -/
theorem not_value_eq_ruled : ¬ ∀ raw, value raw = ruled raw := by
  intro h
  have hvalue := h "\n    a\n  \n    b".toList
  revert hvalue
  decide

end BlockString
end GraphGateway
