import ProtoGpu.Frontend.Parser
import ProtoGpu.Proof.TextSearch

/-!
# Instructions as text

A line with an instruction: its guard, its opcode and modifiers, its operands, the blanks between
them and a comment. Every part of it is read back, since none holds a character that ends it.
-/

namespace ProtoGpu

open Json (isSpace isDigit)

/-! ### Lines -/

/-- Nothing in the text begins a comment. -/
def NoComment (s : Text) : Prop := Text.contains s "//".toList = false

/-- A text that can stand between the dots of an opcode. -/
structure IsPiece (s : Text) : Prop where
  chars : ∀ c ∈ s, isSpace c = false ∧ c ∉ ".,;".toList
  noComment : NoComment s

/-- An operand with the blanks around it. -/
structure OperandText where
  before : Text
  token : Text
  after : Text
  blanks : ∀ c ∈ before ++ after, isSpace c = true
  named : token ≠ []
  trimmed : token.trim = token
  chars : ∀ c ∈ token, c ∉ ",;".toList
  noComment : NoComment token

/-- A line with an instruction. -/
structure InstText where
  lead : Text
  guard : Option PredGuard
  afterGuard : Text
  opcode : Text
  space : Option Text
  flags : List Text
  type : Option Text
  afterMods : Text
  operands : List OperandText
  trail : Text
  comment : Option Text
  blanks : ∀ c ∈ lead ++ (afterGuard ++ (afterMods ++ trail)), isSpace c = true
  guarded : ∀ g ∈ guard, 0 ≤ g.predId ∧ g.predId < 2 ^ 63
  -- the guard of a line without one, and the digits of a guard, do not begin in the opcode
  unguarded : guard = none → opcode.head? ≠ some '@'
  apart : guard ≠ none → afterGuard = [] → ∀ c ∈ opcode.head?, isDigit c = false
  named : opcode ≠ []
  opcodePiece : IsPiece opcode
  spaceName : ∀ m ∈ space, m ∈ spaceNames
  flagPieces : ∀ m ∈ flags, IsPiece m ∧ m ∉ typeModNames ∧ m ∉ spaceNames
  typeName : ∀ m ∈ type, m ∈ typeModNames
  gap : operands ≠ [] → afterMods ≠ []

def guardText (g : PredGuard) : Text :=
  '@' :: ((if g.isNegated then ['!'] else []) ++ '%' :: 'p' :: Text.ofNat g.predId.toNat)

def OperandText.text (op : OperandText) : Text := op.before ++ (op.token ++ op.after)

/-- The operands with commas between them, and the semicolon. -/
def operandsText : List OperandText → Text
  | [] => [';']
  | [op] => op.text ++ [';']
  | op :: ops => op.text ++ ',' :: operandsText ops

namespace InstText

def mods (t : InstText) : List Text := t.space.toList ++ (t.flags ++ t.type.toList)

/-- The opcode with its modifiers. -/
def opmods (t : InstText) : Text := t.opcode ++ t.mods.flatMap fun m => '.' :: m

/-- The line behind the guard. -/
def core (t : InstText) : Text := t.opmods ++ (t.afterMods ++ operandsText t.operands)

def guardPart (t : InstText) : Text :=
  match t.guard with
  | none => []
  | some g => guardText g ++ t.afterGuard

def commentText (t : InstText) : Text :=
  match t.comment with
  | none => []
  | some s => "//".toList ++ s

def line (t : InstText) : Text :=
  t.lead ++ (t.guardPart ++ (t.core ++ (t.trail ++ t.commentText)))

/-- What the line stands for. -/
def tokens (t : InstText) (fileName : String) (lineNo : Nat) : TokenizedPtxInst where
  ptxOpcode := t.opcode
  mods :=
    { typeMod := String.ofList (t.type.getD [])
      space := String.ofList (t.space.getD [])
      flags := t.flags.map String.ofList }
  pred := t.guard
  operandTokens := t.operands.map OperandText.token
  dbg := some { file := fileName, line := lineNo, column := 1 }

end InstText

/-! ### Comments -/

section NoComment
variable {s r : Text}

theorem noComment_iff : NoComment s ↔ ∀ pre post, s ≠ pre ++ ("//".toList ++ post) := by
  rw [NoComment, ← Bool.not_eq_true, Text.contains_iff]
  push Not
  rfl

theorem noComment_of_no_slash (hs : '/' ∉ s) : NoComment s := by
  rw [noComment_iff]
  intro pre post hsplit
  exact hs (hsplit ▸ List.mem_append_right pre List.mem_cons_self)

/-- What of a comment's slashes lies before a border. -/
theorem slashes_before {mid post : Text} (h : "//".toList ++ post = mid ++ r) :
    mid = [] ∨ (mid = ['/'] ∧ r = '/' :: post) ∨ ∃ rest, mid = "//".toList ++ rest := by
  change '/' :: '/' :: post = mid ++ r at h
  match mid with
  | [] => exact .inl rfl
  | [c] =>
      injection h with hc hrest
      exact .inr (.inl ⟨by rw [← hc], hrest.symm⟩)
  | c :: d :: rest =>
      injection h with hc hrest
      injection hrest with hd
      exact .inr (.inr ⟨rest, by rw [← hc, ← hd]; rfl⟩)

/-- A comment does not begin across a border with no slash on one of its sides. -/
theorem NoComment.append (hs : NoComment s) (hr : NoComment r)
    (hborder : (∀ c ∈ s.getLast?, c ≠ '/') ∨ ∀ c ∈ r.head?, c ≠ '/') : NoComment (s ++ r) := by
  rw [noComment_iff] at hs hr ⊢
  intro pre post hsplit
  rcases List.append_eq_append_iff.mp hsplit with ⟨mid, hpre, hmid⟩ | ⟨mid, hmid, hpost⟩
  · exact hr mid post hmid
  · rcases slashes_before hpost with rfl | ⟨rfl, rfl⟩ | ⟨rest, rfl⟩
    · exact hr [] post hpost.symm
    · rcases hborder with hlast | hhead
      · exact hlast '/' (by rw [hmid, List.getLast?_append_cons]; rfl) rfl
      · exact hhead '/' rfl rfl
    · exact hs pre rest hmid

theorem NoComment.cutComment (hs : NoComment s) : s.cutComment = s := by
  have hnone : Text.find s "//".toList = none := by
    rw [Text.find_eq_none_iff]
    exact noComment_iff.mp hs
  rw [Text.cutComment, hnone]

theorem NoComment.cutComment_append (hs : NoComment s) (hlast : ∀ c ∈ s.getLast?, c ≠ '/')
    (r : Text) : Text.cutComment (s ++ ("//".toList ++ r)) = s := by
  have hfind : Text.find (s ++ ("//".toList ++ r)) "//".toList = some s.length := by
    rw [Text.find_eq_some_iff]
    refine ⟨⟨s, r, rfl, rfl⟩, ?_⟩
    intro pre post hsplit
    rcases List.append_eq_append_iff.mp hsplit with ⟨mid, hpre, -⟩ | ⟨mid, hmid, hpost⟩
    · rw [hpre, List.length_append]
      exact Nat.le_add_right ..
    · rcases slashes_before hpost with rfl | ⟨rfl, -⟩ | ⟨rest, rfl⟩
      · rw [hmid, List.append_nil]
      · exact absurd rfl (hlast '/' (by rw [hmid, List.getLast?_append_cons]; rfl))
      · exact absurd hmid (noComment_iff.mp hs pre rest)
  rw [Text.cutComment, hfind]
  exact List.take_left' rfl

theorem NoComment.append_left (hs : '/' ∉ s) (hr : NoComment r) : NoComment (s ++ r) := by
  refine (noComment_of_no_slash hs).append hr (.inl ?_)
  rintro c hc rfl
  exact hs (List.mem_of_getLast? hc)

theorem no_slash_of_blanks (hs : ∀ c ∈ s, isSpace c = true) : '/' ∉ s :=
  fun hc => absurd (hs '/' hc) (by decide)

/-- No blank is a slash. -/
theorem head_blanks_append (hs : ∀ c ∈ s, isSpace c = true) (hr : ∀ c ∈ r.head?, c ≠ '/') :
    ∀ c ∈ (s ++ r).head?, c ≠ '/' := by
  cases s with
  | nil => exact hr
  | cons b s =>
      rintro c hc rfl
      obtain rfl := Option.some.inj hc
      exact absurd (hs '/' List.mem_cons_self) (by decide)

end NoComment

/-! ### Operands -/

theorem blank_not_sep {c : Char} (hc : isSpace c = true) : c ∉ ",;".toList := by
  intro hsep
  change c ∈ [',', ';'] at hsep
  rw [List.mem_cons, List.mem_singleton] at hsep
  rcases hsep with rfl | rfl <;> exact absurd hc (by decide)

namespace OperandText
variable (op : OperandText)

theorem before_blank : ∀ c ∈ op.before, isSpace c = true :=
  fun c hc => op.blanks c (List.mem_append_left _ hc)

theorem after_blank : ∀ c ∈ op.after, isSpace c = true :=
  fun c hc => op.blanks c (List.mem_append_right _ hc)

theorem trim_text : op.text.trim = op.token := by
  rw [text, Text.trim_blanks_append op.before_blank, Text.trim_append_blanks op.after_blank,
    op.trimmed]

theorem text_chars : ∀ c ∈ op.text, c ∉ ",;".toList := by
  intro c hc
  rw [text, List.mem_append, List.mem_append] at hc
  rcases hc with hc | hc | hc
  · exact blank_not_sep (op.before_blank c hc)
  · exact op.chars c hc
  · exact blank_not_sep (op.after_blank c hc)

/-- No comment begins in an operand, or between it and a separator. -/
theorem noComment_append {rest : Text} (hrest : NoComment rest)
    (hhead : ∀ c ∈ rest.head?, c ≠ '/') : NoComment (op.text ++ rest) := by
  rw [text, List.append_assoc, List.append_assoc]
  apply NoComment.append_left (no_slash_of_blanks op.before_blank)
  apply op.noComment.append
  · exact .append_left (no_slash_of_blanks op.after_blank) hrest
  · exact .inr (head_blanks_append op.after_blank hhead)

end OperandText

section Operands

theorem operandTokensFrom_word {w : Text} (hw : ∀ c ∈ w, c ∉ ",;".toList) (cur rest : Text) :
    operandTokensFrom cur (w ++ rest) = operandTokensFrom (cur ++ w) rest := by
  induction w generalizing cur with
  | nil => rw [List.nil_append, List.append_nil]
  | cons c w ih =>
      rw [List.forall_mem_cons] at hw
      have hsep : ¬ (c == ',' || c == ';') = true := by
        intro h
        rw [Bool.or_eq_true, beq_iff_eq, beq_iff_eq] at h
        rcases h with rfl | rfl <;> exact hw.1 (by decide)
      rw [List.cons_append, operandTokensFrom, if_neg hsep, ih hw.2, List.append_assoc]
      rfl

/-- Only the trimmed text of an operand counts. -/
theorem operandTokensFrom_congr {cur cur' : Text}
    (htrim : ∀ w, Text.trim (cur ++ w) = Text.trim (cur' ++ w))
    (s : Text) : operandTokensFrom cur s = operandTokensFrom cur' s := by
  have hcur : cur.trim = cur'.trim := by
    have hnil := htrim []
    rwa [List.append_nil, List.append_nil] at hnil
  induction s generalizing cur cur' with
  | nil => rw [operandTokensFrom, operandTokensFrom, hcur]
  | cons ch s ih =>
      rw [operandTokensFrom, operandTokensFrom, hcur]
      by_cases hsep : (ch == ',' || ch == ';') = true
      · rw [if_pos hsep, if_pos hsep]
      · rw [if_neg hsep, if_neg hsep]
        refine ih (fun w => ?_) (htrim [ch])
        rw [List.append_assoc, List.append_assoc]
        exact htrim _

theorem operandTokensFrom_blanks {gap : Text} (hgap : ∀ c ∈ gap, isSpace c = true) (cur s : Text) :
    operandTokensFrom cur (s ++ gap) = operandTokensFrom cur s := by
  have hword : ∀ c ∈ gap, c ∉ ",;".toList := fun c hc => blank_not_sep (hgap c hc)
  induction s generalizing cur with
  | nil =>
      have htail := operandTokensFrom_word hword cur []
      rw [List.append_nil] at htail
      rw [List.nil_append, htail, operandTokensFrom, operandTokensFrom,
        Text.trim_append_blanks hgap]
  | cons ch s ih =>
      rw [List.cons_append, operandTokensFrom, operandTokensFrom, ih, ih]

/-- Blanks around the operands are no part of them. -/
theorem operandTokensFrom_trim (s : Text) :
    operandTokensFrom [] s.trim = operandTokensFrom [] s := by
  obtain ⟨left, right, hs, hleft, hright⟩ := s.trim_margins
  have hword : ∀ c ∈ left, c ∉ ",;".toList := fun c hc => blank_not_sep (hleft c hc)
  calc operandTokensFrom [] s.trim
      = operandTokensFrom left s.trim :=
        operandTokensFrom_congr (fun w => by rw [List.nil_append, Text.trim_blanks_append hleft]) _
    _ = operandTokensFrom left (s.trim ++ right) := (operandTokensFrom_blanks hright _ _).symm
    _ = operandTokensFrom [] (left ++ (s.trim ++ right)) := (operandTokensFrom_word hword [] _).symm
    _ = operandTokensFrom [] s := by rw [← hs]

theorem operandTokensFrom_text (op : OperandText) {sep : Char}
    (hsep : (sep == ',' || sep == ';') = true) (rest : Text) :
    operandTokensFrom [] (op.text ++ sep :: rest) = op.token :: operandTokensFrom [] rest := by
  rw [operandTokensFrom_word op.text_chars, List.nil_append, operandTokensFrom, if_pos hsep,
    op.trim_text, List.isEmpty_eq_false_iff.mpr op.named, if_neg Bool.false_ne_true]

/-- The operands are read back. -/
theorem operandTokens_text (ops : List OperandText) :
    operandTokensFrom [] (operandsText ops) = ops.map OperandText.token := by
  match ops with
  | [] => rfl
  | [op] => exact operandTokensFrom_text op rfl []
  | op :: op' :: ops =>
      rw [operandsText, operandTokensFrom_text op rfl, operandTokens_text (op' :: ops)]
      · rfl
      · exact nofun

theorem operandsText_noComment (ops : List OperandText) : NoComment (operandsText ops) := by
  have hend : NoComment [';'] := noComment_of_no_slash (by decide)
  match ops with
  | [] => exact hend
  | [op] => exact op.noComment_append hend (by simp)
  | op :: op' :: ops =>
      rw [operandsText]
      · have hrest : NoComment ([','] ++ operandsText (op' :: ops)) :=
          .append_left (by decide) (operandsText_noComment (op' :: ops))
        exact op.noComment_append hrest (by simp)
      · exact nofun

theorem operandsText_last (ops : List OperandText) : (operandsText ops).getLast? = some ';' := by
  match ops with
  | [] => rfl
  | [op] => exact List.getLast?_append_cons ..
  | op :: op' :: ops =>
      rw [operandsText]
      · rw [List.getLast?_append_cons, List.getLast?_cons, operandsText_last (op' :: ops)]
        rfl
      · exact nofun

end Operands

/-! ### Guard, opcode and modifiers -/

theorem isPiece_of_name {m : Text} (hm : m ∈ typeModNames ++ spaceNames) : IsPiece m := by
  have hall : (typeModNames ++ spaceNames).all
      (fun m => m.all fun c => !isSpace c && !".,;/".toList.elem c) = true := by decide
  have hchars := List.all_eq_true.mp (List.all_eq_true.mp hall m hm)
  refine ⟨fun c hc => ?_, noComment_of_no_slash fun hc => absurd (hchars _ hc) (by decide)⟩
  have hchar := hchars c hc
  rw [Bool.and_eq_true, Bool.not_eq_true', Bool.not_eq_true'] at hchar
  refine ⟨hchar.1, fun hsep => absurd hchar.2 ?_⟩
  rw [Bool.not_eq_false]
  exact List.elem_eq_true_of_mem (List.mem_append_left ['/'] hsep)

/-- What begins like a guard is one when digits follow. -/
theorem parsePredicate_sign {neg : Bool} {s tail : Text} (hne : tail ≠ [])
    (hs : s = '@' :: ((if neg then ['!'] else []) ++ '%' :: 'p' :: tail)) (htrim : s.trim = s) :
    parsePredicate s
      = if (tail.takeWhile isDigit).isEmpty then .ok (none, s)
        else Text.stoll (tail.takeWhile isDigit) >>= fun pid =>
          .ok (some { predId := pid, isNegated := neg },
            Text.trim (tail.drop (tail.takeWhile isDigit).length)) := by
  obtain ⟨c, rest, rfl⟩ := List.exists_cons_of_ne_nil hne
  have hdrop : ∀ (k : Nat) (front : Text), (front ++ c :: rest).drop (front.length + k)
      = (c :: rest).drop k := fun k front => by
    rw [List.drop_append, List.drop_eq_nil_of_le (Nat.le_add_right ..), List.nil_append,
      Nat.add_sub_cancel_left]
  have hlen : ∀ (front : Text), ¬ (front ++ c :: rest).length ≤ front.length := fun front => by
    rw [List.length_append, List.length_cons]
    omega
  unfold parsePredicate
  rw [htrim, hs]
  cases neg with
  | false =>
      have hlong := decide_eq_false (hlen ['@', '%', 'p'])
      have hrest := hdrop ((c :: rest).takeWhile isDigit).length ['@', '%', 'p']
      change (if (decide ((['@', '%', 'p'] ++ c :: rest).length ≤ ['@', '%', 'p'].length) || false)
        = true
        then _ else _) = _
      rw [hlong, Bool.or_false, if_neg Bool.false_ne_true]
      change (if ((c :: rest).takeWhile isDigit).isEmpty = true then _ else
        Text.stoll ((c :: rest).takeWhile isDigit) >>= fun pid => Except.ok (_, Text.trim
          ((['@', '%', 'p'] ++ c :: rest).drop (['@', '%', 'p'].length
            + ((c :: rest).takeWhile isDigit).length)))) = _
      rw [hrest]
      rfl
  | true =>
      have hlong := decide_eq_false (hlen ['@', '!', '%', 'p'])
      have hrest := hdrop ((c :: rest).takeWhile isDigit).length ['@', '!', '%', 'p']
      change (if (decide ((['@', '!', '%', 'p'] ++ c :: rest).length ≤ ['@', '!', '%', 'p'].length)
        || false) = true then _ else _) = _
      rw [hlong, Bool.or_false, if_neg Bool.false_ne_true]
      change (if ((c :: rest).takeWhile isDigit).isEmpty = true then _ else
        Text.stoll ((c :: rest).takeWhile isDigit) >>= fun pid => Except.ok (_, Text.trim
          ((['@', '!', '%', 'p'] ++ c :: rest).drop (['@', '!', '%', 'p'].length
            + ((c :: rest).takeWhile isDigit).length)))) = _
      rw [hrest]
      rfl

/-- The guard is read off, with the blanks behind it. -/
theorem parsePredicate_guard {g : PredGuard} (hfits : 0 ≤ g.predId ∧ g.predId < 2 ^ 63)
    {rest : Text} (hrest : ∀ c ∈ rest.head?, isDigit c = false)
    (htrim : Text.trim (guardText g ++ rest) = guardText g ++ rest) :
    parsePredicate (guardText g ++ rest) = .ok (some g, rest.trim) := by
  obtain ⟨id, neg⟩ := g
  obtain ⟨n, rfl⟩ := Int.eq_ofNat_of_zero_le hfits.1
  have hstop : rest.takeWhile isDigit = [] := by
    cases rest with
    | nil => rfl
    | cons c rest =>
      exact List.takeWhile_cons_of_neg (by rw [hrest c rfl]; exact Bool.false_ne_true)
  have hdigits : (Text.ofNat n ++ rest).takeWhile isDigit = Text.ofNat n := by
    rw [List.takeWhile_append_of_pos fun c hc => Text.isDigit_of_mem_ofNat hc, hstop,
      List.append_nil]
  have hlt : n < 2 ^ 63 := by
    have hlt := hfits.2
    change (n : Int) < 2 ^ 63 at hlt
    exact_mod_cast hlt
  have hread : Text.stoll (Text.ofNat n) = .ok (n : Int) := by
    rw [Text.stoll_digits (Text.ofNat_ne_nil n) fun c hc => Text.isDigit_of_mem_ofNat hc,
      Text.digitsValue_ofNat, if_pos hlt]
  have hs : guardText { predId := n, isNegated := neg } ++ rest
      = '@' :: ((if neg then ['!'] else []) ++ '%' :: 'p' :: (Text.ofNat n ++ rest)) := by
    rw [guardText, List.cons_append, List.append_assoc]
    rfl
  have hne : Text.ofNat n ++ rest ≠ [] := List.append_ne_nil_of_left_ne_nil (Text.ofNat_ne_nil n) _
  rw [parsePredicate_sign hne hs htrim, hdigits, hread,
    List.isEmpty_eq_false_iff.mpr (Text.ofNat_ne_nil n), if_neg Bool.false_ne_true, List.drop_left]
  rfl

theorem addMod_space {mods : InstMods} {m : Text} (hm : m ∈ spaceNames) :
    addMod mods m = { mods with space := String.ofList m } := by
  have hall : spaceNames.all (fun m => !typeModNames.elem m) = true := by decide
  have htype := List.all_eq_true.mp hall m hm
  rw [Bool.not_eq_true'] at htype
  rw [addMod, htype, if_neg Bool.false_ne_true, if_pos (List.elem_eq_true_of_mem hm)]

theorem addMod_type {mods : InstMods} {m : Text} (hm : m ∈ typeModNames) :
    addMod mods m = { mods with typeMod := String.ofList m } := by
  rw [addMod, if_pos (List.elem_eq_true_of_mem hm)]

theorem foldl_addMod_flags {flags : List Text}
    (hflags : ∀ m ∈ flags, m ∉ typeModNames ∧ m ∉ spaceNames) (mods : InstMods) :
    flags.foldl addMod mods = { mods with flags := mods.flags ++ flags.map String.ofList } := by
  induction flags generalizing mods with
  | nil => rw [List.foldl_nil, List.map_nil, List.append_nil]
  | cons m flags ih =>
      rw [List.forall_mem_cons] at hflags
      have hflag : addMod mods m = { mods with flags := mods.flags ++ [String.ofList m] } := by
        rw [addMod, if_neg fun h => hflags.1.1 (List.mem_of_elem_eq_true h),
          if_neg fun h => hflags.1.2 (List.mem_of_elem_eq_true h)]
      rw [List.foldl_cons, hflag, ih hflags.2, List.map_cons, List.append_assoc]
      rfl

namespace InstText
variable (t : InstText)

theorem mods_piece : ∀ m ∈ t.mods, IsPiece m := by
  intro m hm
  rw [mods, List.mem_append, List.mem_append, Option.mem_toList, Option.mem_toList] at hm
  rcases hm with hm | hm | hm
  · exact isPiece_of_name (List.mem_append_right _ (t.spaceName m hm))
  · exact (t.flagPieces m hm).1
  · exact isPiece_of_name (List.mem_append_left _ (t.typeName m hm))

/-- The modifiers are sorted by their kinds. -/
theorem foldl_addMod : t.mods.foldl addMod {}
    = { typeMod := String.ofList (t.type.getD []), space := String.ofList (t.space.getD [])
        flags := t.flags.map String.ofList } := by
  have hspace : t.space.toList.foldl addMod {} = { space := String.ofList (t.space.getD []) } := by
    cases hcase : t.space with
    | none => rfl
    | some m => exact addMod_space (t.spaceName m hcase)
  have hflags := foldl_addMod_flags fun m hm => (t.flagPieces m hm).2
  rw [mods, List.foldl_append, List.foldl_append, hspace, hflags]
  cases hcase : t.type with
  | none => rfl
  | some m => exact addMod_type (t.typeName m hcase)

theorem opmods_chars : ∀ c ∈ t.opmods, isSpace c = false ∧ c ∉ ",;".toList := by
  have hpiece : ∀ {s : Text}, IsPiece s → ∀ c ∈ s, isSpace c = false ∧ c ∉ ",;".toList :=
    fun h c hc => ⟨(h.chars c hc).1, fun hsep => (h.chars c hc).2 (List.mem_cons_of_mem '.' hsep)⟩
  intro c hc
  rw [opmods, List.mem_append, List.mem_flatMap] at hc
  rcases hc with hc | ⟨m, hm, hc⟩
  · exact hpiece t.opcodePiece c hc
  · rcases List.mem_cons.mp hc with rfl | hc
    · exact ⟨rfl, by decide⟩
    · exact hpiece (t.mods_piece m hm) c hc

theorem opmods_ne_nil : t.opmods ≠ [] := List.append_ne_nil_of_left_ne_nil t.named _

theorem opmods_head : t.opmods.head? = t.opcode.head? := by
  rw [opmods, List.head?_append_of_ne_nil _ t.named]

theorem split_opmods : Text.split t.opmods '.' = t.opcode :: t.mods := by
  have hdot : ∀ {s : Text}, IsPiece s → '.' ∉ s := fun h hc => (h.chars '.' hc).2 List.mem_cons_self
  exact Text.split_pieces (hdot t.opcodePiece) fun m hm => hdot (t.mods_piece m hm)

theorem pieces_noComment {first : Text} (hfirst : NoComment first) {pieces : List Text}
    (hpieces : ∀ m ∈ pieces, IsPiece m) :
    NoComment (first ++ pieces.flatMap fun m => '.' :: m) := by
  induction pieces generalizing first with
  | nil =>
      rw [List.flatMap_nil, List.append_nil]
      exact hfirst
  | cons m pieces ih =>
      rw [List.forall_mem_cons] at hpieces
      have hdot : NoComment (['.'] ++ m) := .append_left (by decide) hpieces.1.noComment
      have hborder : NoComment (first ++ '.' :: m) := hfirst.append hdot (.inr (by simp))
      have hrest := ih hborder hpieces.2
      rwa [List.append_assoc] at hrest

theorem opmods_noComment : NoComment t.opmods :=
  pieces_noComment t.opcodePiece.noComment t.mods_piece

theorem popBack_opmods (s : Text) (hs : ∀ c ∈ s, c ∈ ",;".toList) :
    Text.trim ((t.opmods ++ s).popBack ";,".toList) = t.opmods := by
  have hsame : ∀ c, c ∈ ",;".toList ↔ c ∈ ";,".toList := fun c => List.mem_pair.trans
    (or_comm.trans List.mem_pair.symm)
  have hkeep : t.opmods.rdropWhile (fun c => ";,".toList.elem c) = t.opmods := by
    rw [List.rdropWhile_eq_self_iff]
    intro hne helem
    exact (t.opmods_chars _ (List.getLast_mem hne)).2
      ((hsame _).mpr (List.mem_of_elem_eq_true helem))
  have hword : Text.trim t.opmods = t.opmods := by
    have htrim := Text.trim_word (fun c hc => (t.opmods_chars c hc).1)
      (show ∀ c ∈ ([] : Text), isSpace c = true from nofun)
    rwa [List.append_nil] at htrim
  rw [Text.popBack, Text.rdropWhile_append_of_all fun c hc =>
    List.elem_eq_true_of_mem ((hsame c).mp (hs c hc)), hkeep, hword]

/-! ### The line -/

theorem afterGuard_blank : ∀ c ∈ t.afterGuard, isSpace c = true :=
  fun c hc => t.blanks c (by simp [hc])

theorem afterMods_blank : ∀ c ∈ t.afterMods, isSpace c = true :=
  fun c hc => t.blanks c (by simp [hc])

theorem core_head : t.core.head? = t.opcode.head? := by
  rw [core, List.head?_append_of_ne_nil _ t.opmods_ne_nil, t.opmods_head]

theorem core_head_letter : ∀ c ∈ t.core.head?, isSpace c = false := by
  intro c hc
  rw [t.core_head] at hc
  exact (t.opcodePiece.chars c (List.mem_of_mem_head? hc)).1

theorem core_last : t.core.getLast? = some ';' := by
  rw [core, ← List.append_assoc, List.getLast?_append, operandsText_last]
  rfl

theorem core_ne_nil : t.core ≠ [] := List.append_ne_nil_of_left_ne_nil t.opmods_ne_nil _

theorem core_last_letter : ∀ c ∈ t.core.getLast?, isSpace c = false := by
  rw [t.core_last]
  rintro c ⟨⟩
  rfl

theorem trim_core {left : Text} (hleft : ∀ c ∈ left, isSpace c = true) :
    Text.trim (left ++ t.core) = t.core := by
  have htrim := Text.trim_between hleft (show ∀ c ∈ ([] : Text), isSpace c = true from nofun)
    t.core_head_letter t.core_last_letter t.core_ne_nil
  rwa [List.append_nil] at htrim

theorem core_noComment : NoComment t.core := by
  have htail : NoComment (t.afterMods ++ operandsText t.operands) :=
    .append_left (no_slash_of_blanks t.afterMods_blank) (operandsText_noComment _)
  apply t.opmods_noComment.append htail
  right
  cases hgap : t.afterMods with
  | nil =>
      -- without blanks there are no operands, and the semicolon follows
      have hnone : t.operands = [] := by
        by_contra hops
        exact t.gap hops hgap
      rw [hnone]
      rintro c ⟨⟩
      decide
  | cons b gap =>
      rintro c hc rfl
      obtain rfl := Option.some.inj hc
      exact absurd (t.afterMods_blank '/' (hgap ▸ List.mem_cons_self)) (by decide)

theorem trim_body {left right : Text} (hleft : ∀ c ∈ left, isSpace c = true)
    (hright : ∀ c ∈ right, isSpace c = true) :
    Text.trim (left ++ ((t.guardPart ++ t.core) ++ right)) = t.guardPart ++ t.core := by
  apply Text.trim_between hleft hright
  · intro c hc
    unfold guardPart at hc
    cases hcase : t.guard with
    | none =>
        rw [hcase] at hc
        exact t.core_head_letter c hc
    | some g =>
        rw [hcase] at hc
        obtain rfl := Option.some.inj hc
        rfl
  · rw [List.getLast?_append_of_ne_nil _ t.core_ne_nil]
    exact t.core_last_letter
  · exact List.append_ne_nil_of_right_ne_nil _ t.core_ne_nil

/-- The line without blanks at its ends and without its comment. -/
theorem trim_cutComment : Text.trim t.line.cutComment = t.guardPart ++ t.core := by
  have hguard : '/' ∉ t.guardPart := by
    unfold guardPart
    cases hcase : t.guard with
    | none => exact List.not_mem_nil
    | some g =>
        intro hslash
        dsimp only at hslash
        rcases List.mem_append.mp hslash with hslash | hslash
        · have hdigits : '/' ∉ Text.ofNat g.predId.toNat := Text.not_mem_ofNat (by decide)
          unfold guardText at hslash
          cases g.isNegated <;> simp [hdigits] at hslash
        · exact no_slash_of_blanks t.afterGuard_blank hslash
  have hlead : ∀ c ∈ t.lead, isSpace c = true := fun c hc => t.blanks c (by simp [hc])
  have htrail : ∀ c ∈ t.trail, isSpace c = true := fun c hc => t.blanks c (by simp [hc])
  have hlast : ∀ c ∈ (t.core ++ t.trail).getLast?, c ≠ '/' := by
    intro c hc
    rw [List.getLast?_append, t.core_last] at hc
    rintro rfl
    cases htail : t.trail.getLast? with
    | none =>
        rw [htail] at hc
        exact absurd (Option.some.inj hc) (by decide)
    | some d =>
        rw [htail] at hc
        obtain rfl := Option.some.inj hc
        exact absurd (htrail _ (List.mem_of_getLast? htail)) (by decide)
  have hbody : NoComment (t.lead ++ (t.guardPart ++ (t.core ++ t.trail))) := by
    apply NoComment.append_left (no_slash_of_blanks hlead)
    apply NoComment.append_left hguard
    have htail := noComment_of_no_slash (no_slash_of_blanks htrail)
    refine t.core_noComment.append htail (.inl ?_)
    rw [t.core_last]
    rintro c ⟨⟩
    decide
  have hcut : t.line.cutComment = t.lead ++ (t.guardPart ++ (t.core ++ t.trail)) := by
    unfold line commentText
    cases t.comment with
    | none =>
        dsimp only
        rw [List.append_nil]
        exact hbody.cutComment
    | some s =>
        have hcut := hbody.cutComment_append ?_ s
        · simpa only [List.append_assoc] using hcut
        · rw [List.getLast?_append_of_ne_nil, List.getLast?_append_of_ne_nil]
          · exact hlast
          · exact List.append_ne_nil_of_left_ne_nil t.core_ne_nil _
          · exact List.append_ne_nil_of_right_ne_nil _
              (List.append_ne_nil_of_left_ne_nil t.core_ne_nil _)
  rw [hcut, ← List.append_assoc t.guardPart, t.trim_body hlead htrail]

/-- The guard is taken off the line. -/
theorem parsePredicate_line : parsePredicate (t.guardPart ++ t.core) = .ok (t.guard, t.core) := by
  have hnil : ∀ c ∈ ([] : Text), isSpace c = true := nofun
  have htrim := t.trim_body hnil hnil
  rw [List.nil_append, List.append_nil] at htrim
  unfold guardPart at htrim ⊢
  cases hcase : t.guard with
  | none =>
      have hhead : (t.core.head? != some '@') = true := by
        rw [t.core_head, bne_iff_ne]
        exact t.unguarded hcase
      have hself : t.core.trim = t.core := t.trim_core hnil
      dsimp only
      rw [List.nil_append, parsePredicate, hself, hhead]
      rfl
  | some g =>
      rw [hcase] at htrim
      dsimp only at htrim ⊢
      rw [List.append_assoc] at htrim ⊢
      have hstop : ∀ c ∈ (t.afterGuard ++ t.core).head?, isDigit c = false := by
        intro c hc
        by_cases hgap : t.afterGuard = []
        · rw [hgap, List.nil_append, t.core_head] at hc
          exact t.apart (by rw [hcase]; exact nofun) hgap c hc
        · rw [List.head?_append_of_ne_nil _ hgap] at hc
          have hspace := t.afterGuard_blank c (List.mem_of_mem_head? hc)
          by_contra hdigit
          rw [Bool.not_eq_false] at hdigit
          rw [Text.not_isSpace_of_isDigit hdigit] at hspace
          cases hspace
      rw [parsePredicate_guard (t.guarded g hcase) hstop htrim, t.trim_core t.afterGuard_blank]

/-- The opcode, the modifiers and the operands. -/
theorem tokenizeGuarded_core (inst : TokenizedPtxInst) (hmods : inst.mods = {}) :
    tokenizeGuarded inst t.core
      = { inst with
          ptxOpcode := t.opcode
          mods :=
            { typeMod := String.ofList (t.type.getD [])
              space := String.ofList (t.space.getD [])
              flags := t.flags.map String.ofList }
          operandTokens := t.operands.map OperandText.token } := by
  have hempty : t.opmods.isEmpty = false := List.isEmpty_eq_false_iff.mpr t.opmods_ne_nil
  have hletters : ∀ c ∈ t.opmods, isSpace c = false := fun c hc => (t.opmods_chars c hc).1
  unfold tokenizeGuarded
  by_cases hgap : t.afterMods = []
  · have hnone : t.operands = [] := by
      by_contra hops
      exact t.gap hops hgap
    have hcore : t.core = t.opmods ++ [';'] := by rw [core, hgap, hnone]; rfl
    have hword : Text.splitWs t.core = [t.opmods ++ [';']] := by
      have hletters' : ∀ c ∈ t.opmods ++ [';'], isSpace c = false := by
        intro c hc
        rcases List.mem_append.mp hc with hc | hc
        · exact hletters c hc
        · rw [List.mem_singleton.mp hc]
          rfl
      have hsplit := Text.splitWsFrom_word hletters' [] []
      rw [List.append_nil, List.nil_append] at hsplit
      rw [hcore, Text.splitWs, hsplit, Text.splitWsFrom, List.isEmpty_eq_false_iff.mpr (by simp)]
      rfl
    rw [hword]
    dsimp only
    rw [t.popBack_opmods [';'] (by simp), hempty, t.split_opmods, hmods, List.tail_cons,
      t.foldl_addMod, hnone]
    rfl
  · have hsplit : Text.splitWs t.core = t.opmods :: Text.splitWs (operandsText t.operands) := by
      rw [core, Text.splitWs, Text.splitWsFrom_word hletters, List.nil_append,
        Text.splitWsFrom_gap t.opmods_ne_nil hgap t.afterMods_blank]
      rfl
    have hwords : (Text.splitWs (operandsText t.operands)).isEmpty = false := by
      rw [List.isEmpty_eq_false_iff]
      exact Text.splitWsFrom_ne_nil (.inr ⟨';', List.mem_of_getLast? (operandsText_last _), rfl⟩)
    have hfind : Text.find t.core t.opmods = some 0 := Text.find_pfx ⟨_, rfl⟩
    have hrest : t.core.drop (0 + t.opmods.length) = t.afterMods ++ operandsText t.operands := by
      rw [Nat.zero_add, core, List.drop_left]
    have hpop := t.popBack_opmods [] fun c hc => absurd hc List.not_mem_nil
    rw [List.append_nil] at hpop
    rw [hsplit]
    dsimp only
    rw [hpop, hempty, hwords, hfind, Option.getD_some, hrest, t.split_opmods, hmods, List.tail_cons,
      t.foldl_addMod, Text.trim_blanks_append t.afterMods_blank, if_neg Bool.false_ne_true,
      if_neg Bool.false_ne_true, operandTokensFrom_trim, operandTokens_text]
    rfl

end InstText

/-- **Tokenizing undoes printing.** -/
theorem tokenizeInstLine_line (t : InstText) (fileName : String) (lineNo : Nat) :
    tokenizeInstLine t.line fileName lineNo = .ok (t.tokens fileName lineNo) := by
  have hne : (t.guardPart ++ t.core).isEmpty = false :=
    List.isEmpty_eq_false_iff.mpr (List.append_ne_nil_of_right_ne_nil _ t.core_ne_nil)
  rw [tokenizeInstLine, t.trim_cutComment, hne, if_neg Bool.false_ne_true, t.parsePredicate_line]
  exact congrArg Except.ok (t.tokenizeGuarded_core _ rfl)

/-- A guarded load with a blank inside an operand. -/
def loadText : InstText where
  lead := [' ', ' ']
  guard := some { predId := 3, isNegated := true }
  afterGuard := [' ']
  opcode := "ld".toList
  space := some "global".toList
  flags := ["nc".toList]
  type := some "u32".toList
  afterMods := [' ']
  operands :=
    [ { before := [], token := "%r1".toList, after := [], blanks := nofun, named := nofun
        trimmed := rfl, chars := by simp, noComment := rfl },
      { before := [' '], token := "[%rd2 + 4]".toList, after := [], blanks := by simp [isSpace]
        named := nofun, trimmed := rfl, chars := by simp, noComment := rfl } ]
  trail := [' ']
  comment := some " load".toList
  blanks := by simp [isSpace]
  guarded := by simp
  unguarded := nofun
  apart := nofun
  named := nofun
  opcodePiece := ⟨by simp [isSpace], rfl⟩
  spaceName := by simp [spaceNames]
  flagPieces := by
    intro m hm
    rw [List.mem_singleton.mp hm]
    exact ⟨⟨by simp [isSpace], rfl⟩, by decide, by decide⟩
  typeName := by simp [typeModNames]
  gap := nofun

example : loadText.line = "  @!%p3 ld.global.nc.u32 %r1, [%rd2 + 4]; // load".toList := rfl

end ProtoGpu
