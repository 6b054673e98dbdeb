import ProtoGpu.Frontend.Text
import ProtoGpu.Lib.Occurrence
import Mathlib.Data.List.Forall2

/-!
# Searching, trimming and reading lines

What the string helpers of the frontend do, each in the terms its callers reason in: `find` returns
the first occurrence, `trim` takes blanks off both ends, and `getlines` cuts the text at its line
feeds.
-/

namespace ProtoGpu.Text

open Json (isSpace isDigit)

/-! ### `find` -/

theorem find_some {s w : Text} {i : Nat} (hfind : s.find w = some i) :
    ∃ pre post, s = pre ++ (w ++ post) ∧ pre.length = i := by
  induction s generalizing i with
  | nil =>
    simp only [find, List.isEmpty_iff, Option.ite_none_right_eq_some, Option.some.injEq] at hfind
    exact ⟨[], [], by simp [hfind.1], hfind.2⟩
  | cons c s ih =>
    rw [find] at hfind
    split at hfind
    · next hhere =>
      obtain ⟨post, hpost⟩ := List.isPrefixOf_iff_prefix.mp hhere
      exact ⟨[], post, hpost.symm, by simpa using hfind⟩
    · obtain ⟨j, hj, rfl⟩ := Option.map_eq_some_iff.mp hfind
      obtain ⟨pre, post, rfl, rfl⟩ := ih hj
      exact ⟨c :: pre, post, rfl, rfl⟩

theorem exists_find {s w pre post : Text} (hs : s = pre ++ (w ++ post)) :
    ∃ i, s.find w = some i ∧ i ≤ pre.length := by
  subst hs
  induction pre with
  | nil =>
    refine ⟨0, ?_, Nat.le_refl _⟩
    cases hcase : w ++ post with
    | nil => simp [find, (List.append_eq_nil_iff.mp hcase).1]
    | cons c s =>
      have hhere : w.isPrefixOf (c :: s) = true :=
        List.isPrefixOf_iff_prefix.mpr ⟨post, hcase⟩
      simp [find, hhere]
  | cons c pre ih =>
    obtain ⟨i, hi, hle⟩ := ih
    rw [List.cons_append, find]
    split
    · exact ⟨0, rfl, Nat.zero_le _⟩
    · exact ⟨i + 1, by rw [hi]; rfl, Nat.succ_le_succ hle⟩

/-- **Search.** The position `find` returns is that of the first occurrence. -/
theorem find_eq_some_iff {s w : Text} {i : Nat} :
    s.find w = some i ↔
      (∃ pre post, s = pre ++ (w ++ post) ∧ pre.length = i) ∧
        ∀ pre post, s = pre ++ (w ++ post) → i ≤ pre.length := by
  constructor
  · intro hfind
    refine ⟨find_some hfind, ?_⟩
    intro pre post hs
    obtain ⟨j, hj, hle⟩ := exists_find hs
    rw [hfind, Option.some.injEq] at hj
    exact hj ▸ hle
  · rintro ⟨⟨pre, post, hs, rfl⟩, hfirst⟩
    obtain ⟨j, hj, hle⟩ := exists_find hs
    obtain ⟨pre', post', hs', hlen⟩ := find_some hj
    rw [hj, Option.some.injEq]
    exact Nat.le_antisymm hle (hlen ▸ hfirst pre' post' hs')

theorem find_eq_none_iff {s w : Text} :
    s.find w = none ↔ ∀ pre post, s ≠ pre ++ (w ++ post) := by
  constructor
  · intro hfind pre post hs
    obtain ⟨i, hi, -⟩ := exists_find hs
    simp [hfind] at hi
  · intro habsent
    cases hfind : s.find w with
    | none => rfl
    | some i =>
      obtain ⟨pre, post, hs, -⟩ := find_some hfind
      exact absurd hs (habsent pre post)

theorem contains_iff {s w : Text} : s.contains w = true ↔ ∃ pre post, s = pre ++ (w ++ post) := by
  rw [Text.contains, Option.isSome_iff_ne_none, ne_eq, find_eq_none_iff]
  push Not
  rfl

theorem find_pfx {s w : Text} (hpre : w <+: s) : s.find w = some 0 := by
  obtain ⟨post, hpost⟩ := hpre
  exact find_eq_some_iff.mpr ⟨⟨[], post, hpost.symm, rfl⟩, fun _ _ _ => Nat.zero_le _⟩

/-! ### `trim` -/

section RightEnd
variable {α : Type*} {p : α → Bool} {s r : List α}

theorem rdropWhile_append_of_all (hall : ∀ x ∈ r, p x) :
    (s ++ r).rdropWhile p = s.rdropWhile p := by
  rw [List.rdropWhile, List.reverse_append, List.dropWhile_append_of_pos, List.rdropWhile]
  intro x hx
  exact hall x (List.mem_reverse.mp hx)

theorem rdropWhile_append_of_ne (hne : r.rdropWhile p ≠ []) :
    (s ++ r).rdropWhile p = s ++ r.rdropWhile p := by
  have hdrop : (r.reverse.dropWhile p).isEmpty = false := by
    rw [List.isEmpty_eq_false_iff]
    intro hnil
    exact hne (by rw [List.rdropWhile, hnil, List.reverse_nil])
  rw [List.rdropWhile, List.reverse_append, List.dropWhile_append, hdrop]
  simp [List.rdropWhile]

end RightEnd

theorem trim_margins (s : Text) :
    ∃ left right, s = left ++ (s.trim ++ right) ∧ (∀ x ∈ left, isSpace x) ∧
      ∀ x ∈ right, isSpace x := by
  refine ⟨s.takeWhile isSpace, (s.dropWhile isSpace).rtakeWhile isSpace, ?_, ?_, ?_⟩
  · rw [Text.trim, List.rdropWhile_append_rtakeWhile, List.takeWhile_append_dropWhile]
  · intro x hx
    exact List.mem_takeWhile_imp hx
  · intro x hx
    rw [List.rtakeWhile, List.mem_reverse] at hx
    exact List.mem_takeWhile_imp hx

/-- Blanks behind a word that ends in none are trimmed off. -/
theorem trim_word {s blanks : Text} (hword : ∀ x ∈ s, isSpace x = false)
    (hblanks : ∀ x ∈ blanks, isSpace x) : Text.trim (s ++ blanks) = s := by
  have hkeep : s.rdropWhile isSpace = s := by
    rw [List.rdropWhile_eq_self_iff]
    intro hne
    simp [hword _ (List.getLast_mem hne)]
  cases s with
  | nil =>
    rw [Text.trim, List.nil_append, List.dropWhile_eq_nil_iff.mpr hblanks, List.rdropWhile_nil]
  | cons c s =>
    rw [Text.trim, List.cons_append, List.dropWhile_cons_of_neg (by simp [hword c (by simp)]),
      ← List.cons_append, rdropWhile_append_of_all hblanks, hkeep]

theorem trim_head (s : Text) : ∀ c ∈ s.trim.head?, isSpace c = false := by
  intro c hc
  have hhead := List.head?_dropWhile_not isSpace s
  obtain ⟨kept, hkept⟩ := List.rdropWhile_prefix isSpace (s.dropWhile isSpace)
  have hc' : (s.dropWhile isSpace).head? = some c := by
    rw [← hkept, List.head?_append, show ((s.dropWhile isSpace).rdropWhile isSpace).head? = some c
      from hc]
    rfl
  rw [hc'] at hhead
  simpa using hhead

theorem trim_pfx {s : Text} (hhead : ∀ c ∈ s.head?, isSpace c = false) : s.trim <+: s := by
  have hkeep : s.dropWhile isSpace = s := by
    cases s with
    | nil => rfl
    | cons c s => exact List.dropWhile_cons_of_neg (by simp [hhead c (by simp)])
  rw [Text.trim, hkeep]
  exact List.rdropWhile_prefix isSpace s

theorem head_of_pfx {s t : Text} (hpre : s <+: t) (hne : s ≠ []) : s.head? = t.head? := by
  obtain ⟨rest, rfl⟩ := hpre
  obtain ⟨c, s, rfl⟩ := List.exists_cons_of_ne_nil hne
  rfl

theorem head_not_space {s t : Text} (hpre : s <+: t) (ht : ∀ c ∈ t.head?, isSpace c = false) :
    ∀ c ∈ s.head?, isSpace c = false := by
  intro c hc
  have hne : s ≠ [] := by
    rintro rfl
    cases hc
  exact ht c (head_of_pfx hpre hne ▸ hc)

theorem trim_blanks_append {gap : Text} (hgap : ∀ c ∈ gap, isSpace c = true) (s : Text) :
    trim (gap ++ s) = s.trim := by
  rw [trim, List.dropWhile_append_of_pos hgap, trim]

theorem trim_append_blanks {gap : Text} (hgap : ∀ c ∈ gap, isSpace c = true) (s : Text) :
    trim (s ++ gap) = s.trim := by
  rw [trim, List.dropWhile_append, trim]
  by_cases hblank : (s.dropWhile isSpace).isEmpty = true
  · rw [if_pos hblank, List.dropWhile_eq_nil_iff.mpr hgap, List.isEmpty_iff.mp hblank]
  · rw [if_neg hblank, rdropWhile_append_of_all hgap]

/-- A text between blanks. -/
theorem trim_between {left s right : Text} (hleft : ∀ c ∈ left, isSpace c = true)
    (hright : ∀ c ∈ right, isSpace c = true) (hhead : ∀ c ∈ s.head?, isSpace c = false)
    (hlast : ∀ c ∈ s.getLast?, isSpace c = false) (hne : s ≠ []) :
    trim (left ++ (s ++ right)) = s := by
  have hdrop : (s ++ right).dropWhile isSpace = s ++ right := by
    obtain ⟨c, s, rfl⟩ := List.exists_cons_of_ne_nil hne
    exact List.dropWhile_cons_of_neg (by simp [hhead c rfl])
  have hkeep : s.rdropWhile isSpace = s := by
    rw [List.rdropWhile_eq_self_iff]
    intro hne'
    simp [hlast _ (List.getLast?_eq_some_getLast hne')]
  rw [trim, List.dropWhile_append_of_pos hleft, hdrop, rdropWhile_append_of_all hright, hkeep]

/-! ### Comments -/

theorem cutComment_pfx (s : Text) : s.cutComment <+: s := by
  unfold cutComment
  split
  · exact List.take_prefix _ _
  · exact List.prefix_rfl

/-- A comment does not begin at a character other than a slash. -/
theorem cutComment_head {s : Text} {c : Char} (hhead : s.head? = some c) (hslash : c ≠ '/') :
    s.cutComment.head? = some c := by
  unfold cutComment
  split
  · next pos hfind =>
    obtain ⟨pre, post, hs, hlen⟩ := find_some hfind
    cases pre with
    | nil =>
      rw [hs] at hhead
      exact absurd (Option.some.inj hhead).symm hslash
    | cons d pre =>
      rw [hs] at hhead ⊢
      obtain rfl := Option.some.inj hhead
      rw [← hlen]
      rfl
  · exact hhead

theorem cutComment_of_no_slash {s : Text} (hs : '/' ∉ s) : s.cutComment = s := by
  have hnone : find s "//".toList = none := by
    rw [find_eq_none_iff]
    intro pre post hsplit
    exact hs (hsplit ▸ List.mem_append_right pre List.mem_cons_self)
  rw [cutComment, hnone]

theorem trim_cons_head {s : Text} {c : Char} (hhead : s.head? = some c) (hc : isSpace c = false) :
    s.trim.head? = some c := by
  have hpre : s.trim <+: s := trim_pfx (by rw [hhead]; simpa using hc)
  have hne : s.trim ≠ [] := by
    intro hnil
    obtain ⟨left, right, hs, hleft, hright⟩ := s.trim_margins
    rw [hnil, List.nil_append] at hs
    have hblank : ∀ x ∈ s, isSpace x := by
      rw [hs]
      intro x hx
      exact (List.mem_append.mp hx).elim (hleft x) (hright x)
    have hmem := hblank c (List.mem_of_mem_head? hhead)
    rw [hc] at hmem
    cases hmem
  rw [head_of_pfx hpre hne, hhead]

/-! ### Words -/

theorem splitWsFrom_word {w : Text} (hword : ∀ c ∈ w, isSpace c = false) (cur rest : Text) :
    splitWsFrom cur (w ++ rest) = splitWsFrom (cur ++ w) rest := by
  induction w generalizing cur with
  | nil => rw [List.nil_append, List.append_nil]
  | cons c w ih =>
    rw [List.cons_append, splitWsFrom, hword c List.mem_cons_self,
      if_neg Bool.false_ne_true, ih fun x hx => hword x (List.mem_cons_of_mem c hx),
      List.append_assoc]
    rfl

theorem splitWsFrom_blanks {gap : Text} (hgap : ∀ c ∈ gap, isSpace c = true) (rest : Text) :
    splitWsFrom [] (gap ++ rest) = splitWsFrom [] rest := by
  induction gap with
  | nil => rfl
  | cons c gap ih =>
    rw [List.cons_append, splitWsFrom, hgap c List.mem_cons_self, if_pos rfl]
    exact ih fun x hx => hgap x (List.mem_cons_of_mem c hx)

theorem splitWsFrom_gap {gap cur : Text} (hcur : cur ≠ []) (hne : gap ≠ [])
    (hgap : ∀ c ∈ gap, isSpace c = true) (rest : Text) :
    splitWsFrom cur (gap ++ rest) = cur :: splitWsFrom [] rest := by
  obtain ⟨c, gap, rfl⟩ := List.exists_cons_of_ne_nil hne
  have hempty : cur.isEmpty = false := List.isEmpty_eq_false_iff.mpr hcur
  rw [List.cons_append, splitWsFrom, hgap c List.mem_cons_self, if_pos rfl, hempty,
    if_neg Bool.false_ne_true, splitWsFrom_blanks fun x hx => hgap x (List.mem_cons_of_mem c hx)]

/-- A character that is no blank is part of a word. -/
theorem splitWsFrom_ne_nil {cur s : Text} (hword : cur ≠ [] ∨ ∃ c ∈ s, isSpace c = false) :
    splitWsFrom cur s ≠ [] := by
  induction s generalizing cur with
  | nil =>
    have hcur : cur ≠ [] := hword.resolve_right fun ⟨_, hc, _⟩ => List.not_mem_nil hc
    rw [splitWsFrom, List.isEmpty_eq_false_iff.mpr hcur]
    exact List.cons_ne_nil cur []
  | cons ch s ih =>
    rw [splitWsFrom]
    by_cases hspace : isSpace ch = true
    · rw [if_pos hspace]
      by_cases hcur : cur = []
      · obtain ⟨c, hc, hletter⟩ := hword.resolve_left (not_not_intro hcur)
        rw [hcur, List.isEmpty_nil, if_pos rfl]
        refine ih (.inr ⟨c, (List.mem_cons.mp hc).resolve_left ?_, hletter⟩)
        rintro rfl
        rw [hspace] at hletter
        cases hletter
      · rw [List.isEmpty_eq_false_iff.mpr hcur, if_neg Bool.false_ne_true]
        exact List.cons_ne_nil cur _
    · rw [if_neg hspace]
      exact ih (.inl (List.append_ne_nil_of_right_ne_nil cur (List.cons_ne_nil ch [])))

/-! ### Pieces -/

theorem splitFrom_piece {sep : Char} {a : Text} (ha : sep ∉ a) (cur rest : Text) :
    splitFrom sep cur (a ++ sep :: rest) = (cur ++ a) :: splitFrom sep [] rest := by
  induction a generalizing cur with
  | nil => rw [List.nil_append, List.append_nil, splitFrom, beq_self_eq_true, if_pos rfl]
  | cons c a ih =>
    rw [List.mem_cons, not_or] at ha
    have hc : ¬ (c == sep) = true := fun h => ha.1 (beq_iff_eq.mp h).symm
    rw [List.cons_append, splitFrom, if_neg hc, ih ha.2, List.append_assoc]
    rfl

theorem splitFrom_last {sep : Char} {a : Text} (ha : sep ∉ a) (cur : Text) :
    splitFrom sep cur a = [cur ++ a] := by
  induction a generalizing cur with
  | nil => rw [splitFrom, List.append_nil]
  | cons c a ih =>
    rw [List.mem_cons, not_or] at ha
    have hc : ¬ (c == sep) = true := fun h => ha.1 (beq_iff_eq.mp h).symm
    rw [splitFrom, if_neg hc, ih ha.2, List.append_assoc]
    rfl

/-- Pieces with a separator before each but the first are read back. -/
theorem split_pieces {sep : Char} {first : Text} {pieces : List Text} (hfirst : sep ∉ first)
    (hpieces : ∀ s ∈ pieces, sep ∉ s) :
    split (first ++ pieces.flatMap fun s => sep :: s) sep = first :: pieces := by
  induction pieces generalizing first with
  | nil => rw [List.flatMap_nil, List.append_nil, split, splitFrom_last hfirst, List.nil_append]
  | cons s pieces ih =>
    rw [List.forall_mem_cons] at hpieces
    have hrest := ih hpieces.1 hpieces.2
    rw [split] at hrest
    rw [List.flatMap_cons, List.cons_append, split, splitFrom_piece hfirst, List.nil_append, hrest]

/-! ### `replace` -/

section Replace
variable {src dst s : Text}

theorem replaceFrom_skip (src dst : Text) (n : Nat) (s : Text) :
    replaceFrom src dst n s = replaceFrom src dst 0 (s.drop n) := by
  induction s generalizing n with
  | nil => cases n <;> rfl
  | cons ch s ih =>
    cases n with
    | zero => rfl
    | succ n => rw [replaceFrom, ih, List.drop_succ_cons]

theorem replaceFrom_absent {d : Char} (hd : d ∈ src) (hs : d ∉ s) :
    replaceFrom src dst 0 s = s := by
  induction s with
  | nil => rfl
  | cons ch s ih =>
    have hno : src.isPrefixOf (ch :: s) = false := by
      rw [Bool.eq_false_iff]
      intro hpre
      exact hs ((List.isPrefixOf_iff_prefix.mp hpre).subset hd)
    rw [replaceFrom, hno, ih fun h => hs (List.mem_cons_of_mem _ h)]
    rfl

theorem replaceFrom_of_not_contains (hs : Text.contains s src = false) :
    replaceFrom src dst 0 s = s := by
  induction s with
  | nil => rfl
  | cons ch s ih =>
    have hfind : find (ch :: s) src = none := by simpa [Text.contains] using hs
    rw [find] at hfind
    split at hfind
    · cases hfind
    · next hno =>
      rw [Option.map_eq_none_iff] at hfind
      rw [replaceFrom, if_neg hno, ih (by simp [Text.contains, hfind])]

theorem mem_replaceFrom {d : Char} {n : Nat} (hd : d ∈ replaceFrom src dst n s) :
    d ∈ s ∨ d ∈ dst := by
  induction s generalizing n with
  | nil => cases n <;> simp [replaceFrom] at hd
  | cons ch s ih =>
    cases n with
    | succ n => exact (ih hd).imp_left (List.mem_cons_of_mem _)
    | zero =>
      rw [replaceFrom] at hd
      split at hd
      · rcases List.mem_append.mp hd with hd | hd
        · exact .inr hd
        · exact (ih hd).imp_left (List.mem_cons_of_mem _)
      · rcases List.mem_cons.mp hd with rfl | hd
        · exact .inl (List.mem_cons_self ..)
        · exact (ih hd).imp_left (List.mem_cons_of_mem _)

end Replace

/-! ### Numbers -/

theorem not_mem_ofNat {c : Char} (hc : c.isDigit = false) {n : Nat} : c ∉ ofNat n := by
  intro hmem
  rw [Nat.isDigit_of_mem_toDigits (by decide) (by decide) hmem] at hc
  cases hc

theorem isDigit_of_mem_ofNat {n : Nat} {c : Char} (hc : c ∈ ofNat n) : isDigit c = true := by
  have hdigit := Nat.isDigit_of_mem_toDigits (by decide) (by decide) hc
  rw [Char.isDigit, Bool.and_eq_true, decide_eq_true_eq, decide_eq_true_eq] at hdigit
  rw [isDigit, Bool.and_eq_true, decide_eq_true_eq, decide_eq_true_eq]
  exact hdigit

theorem ofNat_ne_nil (n : Nat) : ofNat n ≠ [] := Nat.toDigits_ne_nil

theorem digitsValue_ofNat (n : Nat) : digitsValue (ofNat n) = n := by
  have hread : digitsValue (ofNat n) = Nat.ofDigitChars 10 (ofNat n) 0 := by
    rw [Nat.ofDigitChars_eq_foldl, digitsValue]
    congr 1
    funext m c
    rw [Nat.mul_comm, digitValue]
  rw [hread]
  exact Nat.ofDigitChars_toDigits (by decide) (by decide)

theorem ofNat_injective {m n : Nat} (h : ofNat m = ofNat n) : m = n := by
  rw [← digitsValue_ofNat m, h, digitsValue_ofNat]

theorem not_isSpace_of_isDigit {c : Char} (hc : isDigit c = true) : isSpace c = false := by
  by_contra hspace
  simp only [isSpace, Bool.not_eq_false, Bool.or_eq_true, beq_iff_eq] at hspace
  rcases hspace with ((((rfl | rfl) | rfl) | rfl) | rfl) | rfl <;> revert hc <;> decide

theorem scanNumber_digits {s : Text} (hne : s ≠ []) (hdigits : ∀ c ∈ s, isDigit c = true) :
    scanNumber s = some (false, digitsValue s) := by
  obtain ⟨c, rest, rfl⟩ := List.exists_cons_of_ne_nil hne
  have hc := hdigits c (by simp)
  have hblank : (c :: rest).dropWhile isSpace = c :: rest :=
    List.dropWhile_cons_of_neg (by simp [not_isSpace_of_isDigit hc])
  have hminus : c ≠ '-' := by
    rintro rfl
    exact absurd hc (by decide)
  have hplus : c ≠ '+' := by
    rintro rfl
    exact absurd hc (by decide)
  have htake : (c :: rest).takeWhile isDigit = c :: rest := List.takeWhile_eq_self_iff.mpr hdigits
  unfold scanNumber
  simp [hblank, hminus, hplus, htake]

theorem stoll_digits {s : Text} (hne : s ≠ []) (hdigits : ∀ c ∈ s, isDigit c = true) :
    stoll s =
      if digitsValue s < 2 ^ 63 then .ok (digitsValue s : Int) else .error "stoll" := by
  rw [stoll, scanNumber_digits hne hdigits]
  simp only [Bool.false_eq_true, if_false]
  by_cases hfits : digitsValue s < 2 ^ 63
  · rw [if_pos hfits, if_pos (by omega)]
  · rw [if_neg hfits, if_neg (by omega)]

/-! ### `getline` -/

theorem getlinesFrom_line {a : Text} (ha : '\n' ∉ a) (cur b : Text) :
    getlinesFrom cur (a ++ '\n' :: b) = (cur ++ a) :: getlines b := by
  induction a generalizing cur with
  | nil => simp [getlinesFrom, getlines]
  | cons c a ih =>
    rw [List.mem_cons, not_or] at ha
    have hc : (c == '\n') = false := by simpa using fun heq : c = '\n' => ha.1 heq.symm
    rw [List.cons_append, getlinesFrom, hc]
    simpa using ih ha.2 (cur ++ [c])

theorem getlinesFrom_last {a : Text} (ha : '\n' ∉ a) (cur : Text) :
    getlinesFrom cur a = if cur ++ a = [] then [] else [cur ++ a] := by
  induction a generalizing cur with
  | nil => simp [getlinesFrom]
  | cons c a ih =>
    rw [List.mem_cons, not_or] at ha
    have hc : (c == '\n') = false := by simpa using fun heq : c = '\n' => ha.1 heq.symm
    rw [getlinesFrom, hc]
    simpa using ih ha.2 (cur ++ [c])

theorem getlines_line {a b : Text} (ha : '\n' ∉ a) : getlines (a ++ '\n' :: b) = a :: getlines b :=
  getlinesFrom_line ha [] b

theorem getlines_last {a : Text} (ha : '\n' ∉ a) : getlines a = if a = [] then [] else [a] :=
  getlinesFrom_last ha []

/-- Lines, each with its line feed, are read back. -/
theorem getlines_flatMap {lines : List Text} (hlines : ∀ line ∈ lines, '\n' ∉ line) :
    getlines (lines.flatMap fun t => t ++ ['\n']) = lines := by
  induction lines with
  | nil => rfl
  | cons line lines ih =>
    rw [List.forall_mem_cons] at hlines
    rw [List.flatMap_cons, List.append_assoc, List.singleton_append, getlines_line hlines.1,
      ih hlines.2]

/-- A text is a last line, or a line, its line feed and a shorter text. -/
theorem lines_induct {motive : Text → Prop} (last : ∀ a, '\n' ∉ a → motive a)
    (line : ∀ a b, '\n' ∉ a → motive b → motive (a ++ '\n' :: b)) (s : Text) : motive s := by
  by_cases hmem : '\n' ∈ s
  · obtain ⟨a, b, hs, ha⟩ := List.eq_append_cons_of_mem hmem
    have hshort : b.length < s.length := by rw [hs]; simp; omega
    exact hs ▸ line a b ha (lines_induct last line b)
  · exact last s hmem
termination_by s.length

/-! ### Texts that go on -/

theorem find_append {s w : Text} {i : Nat} (hfind : s.find w = some i) (rest : Text) :
    find (s ++ rest) w = some i := by
  obtain ⟨⟨pre, post, rfl, rfl⟩, hfirst⟩ := find_eq_some_iff.mp hfind
  rw [find_eq_some_iff]
  refine ⟨⟨pre, post ++ rest, by simp, rfl⟩, ?_⟩
  intro pre' post' hsplit
  by_contra! hlt
  -- an occurrence that begins before the first one ends within the text
  have hinside : pre' ++ w <+: pre ++ (w ++ post) := by
    have hleft : pre' ++ w <+: (pre ++ (w ++ post)) ++ rest := by
      rw [hsplit, ← List.append_assoc]
      exact List.prefix_append _ _
    apply List.prefix_of_prefix_length_le hleft (List.prefix_append _ _)
    simp only [List.length_append]
    omega
  obtain ⟨post'', hpost⟩ := hinside
  have hle := hfirst pre' post'' (by rw [← hpost, List.append_assoc])
  omega

theorem cutComment_append {s : Text} (hcomment : Text.contains s "//".toList = true) (rest : Text) :
    cutComment (s ++ rest) = cutComment s := by
  obtain ⟨i, hi⟩ := Option.isSome_iff_exists.mp hcomment
  obtain ⟨⟨pre, post, rfl, rfl⟩, -⟩ := find_eq_some_iff.mp hi
  rw [cutComment, cutComment, find_append hi, hi]
  dsimp only
  rw [List.append_assoc, List.take_left, List.take_left]

theorem dropWhile_append_of_head {s : Text} (hne : s.dropWhile isSpace ≠ []) (rest : Text) :
    (s ++ rest).dropWhile isSpace = s.dropWhile isSpace ++ rest := by
  rw [List.dropWhile_append, if_neg (by simpa using hne)]

/-- A text that goes on begins, trimmed, as it does alone. -/
theorem trim_pfx_append (s rest : Text) : s.trim <+: trim (s ++ rest) := by
  by_cases hne : s.dropWhile isSpace = []
  · rw [trim, hne]
    exact List.nil_prefix
  · rw [trim, trim, dropWhile_append_of_head hne]
    by_cases hrest : rest.rdropWhile isSpace = []
    · rw [rdropWhile_append_of_all (List.rdropWhile_eq_nil_iff.mp hrest)]
    · rw [rdropWhile_append_of_ne hrest]
      exact (List.rdropWhile_prefix isSpace _).trans (List.prefix_append _ _)

section Replace
variable {src dst : Text} {R : Char → Char → Prop}

/-- A replacement that relates the characters of an occurrence relates those of the text. -/
theorem replaceFrom_forall₂ (hrefl : ∀ c, R c c) (hne : src ≠ []) (hdst : List.Forall₂ R src dst)
    (n : Nat) (s : Text) : List.Forall₂ R (s.drop n) (replaceFrom src dst n s) := by
  induction s generalizing n with
  | nil =>
    rw [List.drop_nil, replaceFrom]
    exact .nil
  | cons c s ih =>
    cases n with
    | succ n => exact ih n
    | zero =>
      rw [List.drop_zero, replaceFrom]
      split
      · next hpre =>
        obtain ⟨rest, hrest⟩ := List.isPrefixOf_iff_prefix.mp hpre
        obtain ⟨d, src, rfl⟩ := List.exists_cons_of_ne_nil hne
        obtain ⟨-, rfl⟩ := List.cons.inj hrest
        rw [← hrest]
        apply List.rel_append hdst
        have hbehind : List.Forall₂ R ((src ++ rest).drop src.length)
            (replaceFrom (d :: src) dst src.length (src ++ rest)) := ih src.length
        rw [List.drop_left] at hbehind
        exact hbehind
      · exact .cons (hrefl c) (ih 0)

theorem contains_of_forall₂ {s t w : Text} (hst : List.Forall₂ R s t)
    (hw : ∀ c d, R c d → d ∈ w → d = c) (ht : Text.contains t w = true) :
    Text.contains s w = true := by
  obtain ⟨pre, post, rfl⟩ := contains_iff.mp ht
  have hmid := List.forall₂_take_append _ _ _ (List.forall₂_drop_append _ _ _ hst)
  have hsame {u v : Text} (huv : List.Forall₂ R u v) (hv : ∀ d ∈ v, d ∈ w) : u = v := by
    induction huv with
    | nil => rfl
    | cons hcd _ ih =>
      rw [List.forall_mem_cons] at hv
      rw [hw _ _ hcd hv.1, ih hv.2]
  refine contains_iff.mpr ⟨s.take pre.length, (s.drop pre.length).drop w.length, ?_⟩
  calc
    s = s.take pre.length ++ s.drop pre.length := (List.take_append_drop ..).symm
    _ = s.take pre.length ++ ((s.drop pre.length).take w.length
          ++ (s.drop pre.length).drop w.length) := by
      rw [List.take_append_drop w.length]
    _ = s.take pre.length ++ (w ++ (s.drop pre.length).drop w.length) := by
      rw [hsame hmid fun d hd => hd]

/-- A replacement that changes the last character of an occurrence changes nothing in a beginning of
the text without an occurrence. -/
theorem pfx_replaceFrom {w code : Text} {a b : Char}
    (hcode : Text.contains code (w ++ [a]) = false) {s : Text} (hs : code <+: s) :
    code <+: replaceFrom (w ++ [a]) (w ++ [b]) 0 s := by
  induction code generalizing s with
  | nil => exact List.nil_prefix
  | cons c code ih =>
    obtain ⟨rest, rfl⟩ := hs
    rw [List.cons_append, replaceFrom]
    split
    · next hpre =>
      have hshort : c :: code <+: w := by
        rcases List.prefix_or_prefix_of_prefix (List.isPrefixOf_iff_prefix.mp hpre)
          (List.prefix_append (c :: code) rest) with hin | hin
        · obtain ⟨post, hpost⟩ := hin
          have hfound : Text.contains (c :: code) (w ++ [a]) = true :=
            contains_iff.mpr ⟨[], post, hpost.symm⟩
          rw [hcode] at hfound
          cases hfound
        · rcases List.prefix_concat_iff.mp hin with heq | hin
          · have hfound : Text.contains (c :: code) (w ++ [a]) = true :=
              contains_iff.mpr ⟨[], [], by rw [heq]; simp⟩
            rw [hcode] at hfound
            cases hfound
          · exact hin
      rw [List.append_assoc]
      exact hshort.trans (List.prefix_append _ _)
    · rw [List.prefix_cons_inj]
      apply ih _ (List.prefix_append _ _)
      rw [Bool.eq_false_iff] at hcode ⊢
      intro hfound
      obtain ⟨pre, post, hsplit⟩ := contains_iff.mp hfound
      exact hcode (contains_iff.mpr ⟨c :: pre, post, by rw [hsplit]; rfl⟩)

end Replace

theorem takeWhile_ne_cons {c : Char} {a : Text} (ha : c ∉ a) (rest : Text) :
    (a ++ c :: rest).takeWhile (· != c) = a := by
  rw [List.takeWhile_append_of_pos fun d hd => by simpa using ne_of_mem_of_not_mem hd ha]
  simp

theorem contains_char {s : Text} {c : Char} : Text.contains s [c] = true ↔ c ∈ s := by
  rw [contains_iff]
  constructor
  · rintro ⟨pre, post, rfl⟩
    simp
  · intro hc
    obtain ⟨pre, post, rfl⟩ := List.append_of_mem hc
    exact ⟨pre, post, rfl⟩

theorem splitWsFrom_pfx {cur s w : Text} {words : List Text} (hcur : cur ≠ [])
    (hsplit : splitWsFrom cur s = w :: words) : w <+: cur ++ s := by
  induction s generalizing cur with
  | nil =>
    rw [splitWsFrom, if_neg (by simpa using hcur)] at hsplit
    rw [(List.cons.inj hsplit).1]
    exact List.prefix_append _ _
  | cons c s ih =>
    rw [splitWsFrom] at hsplit
    split at hsplit
    · rw [if_neg (by simpa using hcur)] at hsplit
      rw [(List.cons.inj hsplit).1]
      exact List.prefix_append _ _
    · have hpre := ih (List.append_ne_nil_of_right_ne_nil cur (List.cons_ne_nil c [])) hsplit
      rwa [List.append_assoc] at hpre

/-- A text that begins with no blank begins with its first word. -/
theorem splitWs_pfx {s w : Text} {words : List Text} (hhead : ∀ c ∈ s.head?, isSpace c = false)
    (hsplit : s.splitWs = w :: words) : w <+: s := by
  cases s with
  | nil => cases hsplit
  | cons c s =>
    rw [splitWs, splitWsFrom, hhead c rfl] at hsplit
    exact splitWsFrom_pfx (List.cons_ne_nil c []) hsplit

end ProtoGpu.Text
