import ProtoGpu.Proof.ParamLayout
import ProtoGpu.Proof.ParserRun
import ProtoGpu.Proof.TextSearch

/-!
# Signatures as text

A line that declares a parameter, with its blanks and separators, and what the parser reads off it:
the words of the line, and of these a descriptor when the type is one the parser knows.
-/

namespace ProtoGpu

open Json (isSpace)

/-! ### Declarations -/

/-- The scalar types of PTX. -/
inductive PtxScalar where
  | b8 | b16 | b32 | b64 | b128
  | u8 | u16 | u32 | u64
  | s8 | s16 | s32 | s64
  | f16 | f16x2 | f32 | f64
  | pred
deriving DecidableEq, Repr

namespace PtxScalar

def text : PtxScalar → Text
  | .b8 => ".b8".toList
  | .b16 => ".b16".toList
  | .b32 => ".b32".toList
  | .b64 => ".b64".toList
  | .b128 => ".b128".toList
  | .u8 => ".u8".toList
  | .u16 => ".u16".toList
  | .u32 => ".u32".toList
  | .u64 => ".u64".toList
  | .s8 => ".s8".toList
  | .s16 => ".s16".toList
  | .s32 => ".s32".toList
  | .s64 => ".s64".toList
  | .f16 => ".f16".toList
  | .f16x2 => ".f16x2".toList
  | .f32 => ".f32".toList
  | .f64 => ".f64".toList
  | .pred => ".pred".toList

def bytes : PtxScalar → Nat
  | .b8 | .u8 | .s8 | .pred => 1
  | .b16 | .u16 | .s16 | .f16 => 2
  | .b32 | .u32 | .s32 | .f32 | .f16x2 => 4
  | .b64 | .u64 | .s64 | .f64 => 8
  | .b128 => 16

/-- The type of the descriptor, for the two types that have one. -/
def param : PtxScalar → Option ParamType
  | .u32 => some .u32
  | .u64 => some .u64
  | _ => none

end PtxScalar

def isBlank (c : Char) : Bool := isSpace c && c != '\n'

def isNameChar (c : Char) : Bool := c.isAlphanum || c == '_' || c == '$' || c == '%'

/-- A line that declares a parameter. -/
structure ParamDecl where
  lead : Text
  afterParam : Text
  type : PtxScalar
  afterType : Text
  name : Text
  sep : Text
  trail : Text
  blanks : ∀ c ∈ lead ++ (afterParam ++ (afterType ++ trail)), isBlank c = true
  gaps : afterParam ≠ [] ∧ afterType ≠ []
  named : name ≠ []
  letters : ∀ c ∈ name, isNameChar c = true
  seps : ∀ c ∈ sep, c ∈ ",);".toList

namespace ParamDecl

def core (d : ParamDecl) : Text :=
  ".param".toList ++ (d.afterParam ++ (d.type.text ++ (d.afterType ++ (d.name ++ d.sep))))

def line (d : ParamDecl) : Text := d.lead ++ (d.core ++ d.trail)

/-- The descriptor the parser makes of the line. -/
def raw (d : ParamDecl) : Option ParamDesc := d.type.param.map (rawParam (String.ofList d.name))

end ParamDecl

/-! ### Characters -/

theorem isSpace_of_isBlank {c : Char} (hc : isBlank c = true) : isSpace c = true := by
  unfold isBlank at hc
  rw [Bool.and_eq_true] at hc
  exact hc.1

theorem isNameChar_not_space {c : Char} (hc : isNameChar c = true) : isSpace c = false := by
  cases hspace : isSpace c with
  | false => rfl
  | true =>
    unfold isSpace at hspace
    simp only [Bool.or_eq_true, beq_iff_eq] at hspace
    rcases hspace with ((((rfl | rfl) | rfl) | rfl) | rfl) | rfl <;> exact absurd hc (by decide)

theorem isNameChar_not_sep {c : Char} (hc : isNameChar c = true) : c ∉ ",);".toList := by
  intro hsep
  change c ∈ [',', ')', ';'] at hsep
  simp only [List.mem_cons, List.not_mem_nil, or_false] at hsep
  rcases hsep with rfl | rfl | rfl <;> exact absurd hc (by decide)

theorem sep_not_space {c : Char} (hc : c ∈ ",);".toList) : isSpace c = false := by
  change c ∈ [',', ')', ';'] at hc
  simp only [List.mem_cons, List.not_mem_nil, or_false] at hc
  rcases hc with rfl | rfl | rfl <;> rfl

theorem isNameChar_of_mem_text (t : PtxScalar) {c : Char} (hc : c ∈ t.text) :
    c = '.' ∨ isNameChar c = true := by
  have hall : t.text.all (fun c => c == '.' || isNameChar c) = true := by cases t <;> rfl
  have hmem := List.all_eq_true.mp hall c hc
  rwa [Bool.or_eq_true, beq_iff_eq] at hmem

/-! ### The reading of a declaration -/

namespace ParamDecl
variable (d : ParamDecl)

theorem space_of_mem_gap {c : Char}
    (hc : c ∈ d.lead ++ (d.afterParam ++ (d.afterType ++ d.trail))) :
    isSpace c = true := isSpace_of_isBlank (d.blanks c hc)

theorem afterParam_space : ∀ c ∈ d.afterParam, isSpace c = true :=
  fun c hc => d.space_of_mem_gap (by simp [hc])

theorem afterType_space : ∀ c ∈ d.afterType, isSpace c = true :=
  fun c hc => d.space_of_mem_gap (by simp [hc])

theorem type_not_space : ∀ c ∈ d.type.text, isSpace c = false := by
  intro c hc
  rcases isNameChar_of_mem_text d.type hc with rfl | hletter
  · rfl
  · exact isNameChar_not_space hletter

theorem word_not_space : ∀ c ∈ d.name ++ d.sep, isSpace c = false := by
  intro c hc
  rcases List.mem_append.mp hc with hc | hc
  · exact isNameChar_not_space (d.letters c hc)
  · exact sep_not_space (d.seps c hc)

theorem no_slash : '/' ∉ d.core := by
  have hgap : ∀ c, isSpace c = true → c ≠ '/' := by
    rintro c hc rfl
    exact absurd hc (by decide)
  intro hslash
  unfold core at hslash
  simp only [List.mem_append] at hslash
  rcases hslash with hc | hc | hc | hc | hc | hc
  · exact absurd hc (by decide)
  · exact hgap _ (d.afterParam_space _ hc) rfl
  · rcases isNameChar_of_mem_text d.type hc with h | h <;> exact absurd h (by decide)
  · exact hgap _ (d.afterType_space _ hc) rfl
  · exact absurd (d.letters _ hc) (by decide)
  · exact absurd (d.seps _ hc) (by decide)

theorem word_ne_nil : d.name ++ d.sep ≠ [] := fun h => d.named (List.append_eq_nil_iff.mp h).1

theorem trim_core (left right : Text) (hleft : ∀ c ∈ left, isSpace c = true)
    (hright : ∀ c ∈ right, isSpace c = true) : Text.trim (left ++ (d.core ++ right)) = d.core := by
  apply Text.trim_between hleft hright
  · rintro c ⟨⟩
    rfl
  · intro c hc
    have hlast : d.core.getLast? = (d.name ++ d.sep).getLast? := by
      unfold core
      simp only [← List.append_assoc]
      rw [List.append_assoc _ d.name d.sep, List.getLast?_append_of_ne_nil _ d.word_ne_nil]
    rw [hlast] at hc
    exact d.word_not_space c (List.mem_of_getLast? hc)
  · exact nofun

theorem trim_line : Text.trim d.line = d.core :=
  d.trim_core d.lead d.trail (fun _ hc => d.space_of_mem_gap (List.mem_append_left _ hc))
    fun c hc => d.space_of_mem_gap (by simp [hc])

theorem splitWs_core : Text.splitWs d.core = [".param".toList, d.type.text, d.name ++ d.sep] := by
  have htype : d.type.text ≠ [] := by cases d.type <;> exact nofun
  have hparam : ∀ c ∈ ".param".toList, isSpace c = false := by
    intro c hc
    have hall : ".param".toList.all (fun c => !isSpace c) := rfl
    simpa using List.all_eq_true.mp hall c hc
  unfold Text.splitWs core
  rw [Text.splitWsFrom_word hparam, List.nil_append,
    Text.splitWsFrom_gap (by decide) d.gaps.1 d.afterParam_space,
    Text.splitWsFrom_word d.type_not_space, List.nil_append,
    Text.splitWsFrom_gap htype d.gaps.2 d.afterType_space]
  have hword := Text.splitWsFrom_word d.word_not_space [] []
  rw [List.append_nil, List.nil_append] at hword
  have hempty : (d.name ++ d.sep).isEmpty = false := List.isEmpty_eq_false_iff.mpr d.word_ne_nil
  rw [hword, Text.splitWsFrom, hempty, if_neg Bool.false_ne_true]

theorem popBack_word : Text.trim ((d.name ++ d.sep).popBack ",);".toList) = d.name := by
  have hsep : ∀ c ∈ d.sep, (",);".toList.elem c) = true := fun c hc =>
      List.elem_eq_true_of_mem (d.seps c hc)
  have hname : d.name.rdropWhile (fun c => ",);".toList.elem c) = d.name := by
    rw [List.rdropWhile_eq_self_iff]
    intro hne helem
    exact isNameChar_not_sep (d.letters _ (List.getLast_mem hne)) (List.mem_of_elem_eq_true helem)
  rw [Text.popBack, Text.rdropWhile_append_of_all hsep, hname]
  have htrim : Text.trim (d.name ++ []) = d.name := Text.trim_word
    (fun c hc => isNameChar_not_space (d.letters c hc)) (fun _ hc => absurd hc List.not_mem_nil)
  rwa [List.append_nil] at htrim

/-- A declaration becomes a descriptor when its type is `.u32` or `.u64`, and nothing otherwise. -/
theorem parseParamDecl_core : parseParamDecl d.core = d.raw := by
  have hcut : Text.trim (Text.cutComment d.core) = d.core := by
    rw [Text.cutComment_of_no_slash d.no_slash]
    have htrim := d.trim_core [] [] (fun _ hc => absurd hc List.not_mem_nil)
      (fun _ hc => absurd hc List.not_mem_nil)
    rwa [List.nil_append, List.append_nil] at htrim
  have hcontains : Text.contains d.core ".param".toList = true :=
    Text.contains_iff.mpr ⟨[], _, rfl⟩
  have hname : d.name.isEmpty = false := List.isEmpty_eq_false_iff.mpr d.named
  unfold parseParamDecl raw
  dsimp only
  rw [hcut, hcontains, d.splitWs_core]
  dsimp only
  rw [d.popBack_word, hname]
  cases d.type <;> rfl

theorem not_header : isHeader d.core = false := rfl

theorem core_ne_nil : d.core ≠ [] := nofun

theorem core_ne_closing : d.core ≠ ['\x7d'] := nofun

theorem core_head : d.core.head? ≠ some '\x7b' := by
  intro h
  cases h

end ParamDecl

end ProtoGpu
