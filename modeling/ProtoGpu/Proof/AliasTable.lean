import ProtoGpu.Proof.BodyPasses
import ProtoGpu.Proof.TextSearch

/-!
# The numbers of the named registers

The first pass over a body keeps, for each of the two banks, the largest range that begins a `.reg`
line, and lists the names that do. The names are then numbered from there on, each bank for itself
and modulo `2 ^ 32`.
-/

namespace ProtoGpu

open Throwing

/-- The banks the named registers are numbered in. -/
inductive RegBank where
  | narrow
  | wide
deriving DecidableEq

namespace RegBank

/-- `%r` and the number, or `%rd` and the number. -/
def aliasFor (b : RegBank) (n : Nat) : Text :=
  (match b with
    | narrow => "%r".toList
    | wide => "%rd".toList) ++ Text.ofNat n

/-- The bank of the named registers of a type, if they are numbered. -/
def ofType (type : Text) : Option RegBank :=
  if type == ".b64".toList || type == ".u64".toList then some wide
  else if type == ".b32".toList || type == ".u32".toList || type == ".f32".toList then some narrow
  else none

/-- The declaration is of a range that the bank counts. -/
def counts (b : RegBank) (decl : Text) : Bool :=
  match b with
  | narrow => decl.startsWith "%r<".toList || decl.startsWith "%f<".toList
  | wide => decl.startsWith "%rd<".toList

end RegBank

def KernelTokens.count (cur : KernelTokens) : RegBank → Nat
  | .narrow => cur.regU32Count
  | .wide => cur.regU64Count

/-! ### What a line declares -/

/-- The type and the first declaration of a `.reg` line. -/
def regDecl (line : Nat × Text) : Option (Text × Text) :=
  let s := bodyText line
  if s.startsWith ".reg".toList then
    match s.splitWs with
    | _ :: type :: word :: _ => some (type, Text.trim (word.popBack ";,".toList))
    | _ => none
  else none

/-- What stands between the angle brackets of a range. -/
def rangeText (decl : Text) : Option Text :=
  match Text.find decl ['<'], Text.find decl ['>'] with
  | some lt, some gt => if lt + 1 < gt then some (decl.substr (lt + 1) (gt - lt - 1)) else none
  | _, _ => none

/-- The size of a range, `0` for what is none. -/
def rangeSize (decl : Text) : Nat :=
  match (rangeText decl).map Text.stoul with
  | some (.ok count) => count % 2 ^ 32
  | _ => 0

/-- How many registers of the bank the line counts. -/
def lineCount (b : RegBank) (line : Nat × Text) : Nat :=
  match regDecl line with
  | some (_, decl) => if b.counts decl then rangeSize decl else 0
  | none => 0

/-- The named register that begins the declarations of the line. -/
def lineNamed (line : Nat × Text) : Option PendingNamedReg :=
  match regDecl line with
  | some (type, decl) =>
      if (rangeText decl).isNone && isNamedReg decl then some { type := type, name := decl }
      else none
  | none => none

/-- The first number behind the ranges of the bank. -/
def firstNumber (b : RegBank) (lines : List (Nat × Text)) : Nat :=
  lines.foldl (fun n line => max n (lineCount b line)) 0

/-! ### The first pass -/

theorem declareRange_count (cur : KernelTokens) (decl : Text) (n : Nat) (b : RegBank) :
    (declareRange cur decl n).count b = max (cur.count b) (if b.counts decl then n else 0) := by
  have hunfold : declareRange cur decl n
      = if RegBank.wide.counts decl then { cur with regU64Count := max cur.regU64Count n }
        else if RegBank.narrow.counts decl then { cur with regU32Count := max cur.regU32Count n }
        else cur := rfl
  rw [hunfold]
  cases hwide : RegBank.wide.counts decl with
  | true =>
    -- a wide range is not a narrow one as well
    have hnarrow : RegBank.narrow.counts decl = false := by
      obtain ⟨rest, rfl⟩ := List.isPrefixOf_iff_prefix.mp hwide
      rfl
    cases b <;> simp [KernelTokens.count, hwide, hnarrow]
  | false =>
    cases hnarrow : RegBank.narrow.counts decl with
    | true => cases b <;> simp [KernelTokens.count, hwide, hnarrow]
    | false => cases b <;> simp [KernelTokens.count, hwide, hnarrow]

/-- What the first pass takes from a line. -/
structure Takes (scan : BodyScan) (line : Nat × Text) (scan' : BodyScan) : Prop where
  named : scan'.pendingNamed = scan.pendingNamed ++ (lineNamed line).toList
  count : ∀ b, scan'.cur.count b = max (scan.cur.count b) (lineCount b line)

theorem takes_nothing (scan : BodyScan) {line : Nat × Text} (hline : regDecl line = none) :
    Takes scan line scan := by
  refine ⟨?_, fun b => ?_⟩
  · simp [lineNamed, hline]
  · simp [lineCount, hline]

theorem scanReg_takes {scan scan' : BodyScan} {line : Nat × Text}
    (hreg : (bodyText line).startsWith ".reg".toList = true)
    (hscan : scanReg scan (bodyText line) = .ok scan') : Takes scan line scan' := by
  unfold scanReg at hscan
  split at hscan
  · next word type decl rest hwords =>
    have hdecl : regDecl line = some (type, Text.trim (decl.popBack ";,".toList)) := by
      rw [regDecl, if_pos hreg, hwords]
    generalize Text.trim (decl.popBack ";,".toList) = decl at hscan hdecl
    have hnone (hrange : rangeText decl = none)
        (hscan : Except.ok (ε := String) (if isNamedReg decl then
          { scan with pendingNamed := scan.pendingNamed ++ [{ type := type, name := decl }] }
          else scan) = .ok scan') : Takes scan line scan' := by
      cases hscan
      have hcount : ∀ b, lineCount b line = 0 := by
        intro b
        simp [lineCount, hdecl, rangeSize, hrange]
      cases hnamed : isNamedReg decl with
      | true => exact ⟨by simp [lineNamed, hdecl, hrange, hnamed], fun b => by simp [hcount b]⟩
      | false => exact ⟨by simp [lineNamed, hdecl, hnamed], fun b => by simp [hcount b]⟩
    dsimp only at hscan
    split at hscan
    · next lt gt hlt hgt =>
      split at hscan
      · next hwide =>
        obtain ⟨count, hcount, hok⟩ := bind_ok.mp hscan
        cases hok
        have hrange : rangeText decl = some (decl.substr (lt + 1) (gt - lt - 1)) := by
          simp [rangeText, hlt, hgt, hwide]
        have hsize : rangeSize decl = count % 2 ^ 32 := by
          simp [rangeSize, hrange, hcount]
        refine ⟨by simp [lineNamed, hdecl, hrange], fun b => ?_⟩
        rw [lineCount, hdecl]
        dsimp only
        rw [hsize]
        exact declareRange_count scan.cur decl _ b
      · next hwide => exact hnone (by simp [rangeText, hlt, hgt, hwide]) hscan
    · next hbrackets =>
      refine hnone ?_ hscan
      unfold rangeText
      split
      · next lt gt hlt hgt => exact absurd hgt (hbrackets lt gt hlt)
      · rfl
  · next hwords =>
    cases hscan
    apply takes_nothing
    rw [regDecl, if_pos hreg]
    split
    · next word type decl rest hsome => exact absurd hsome (hwords word type decl rest)
    · rfl

theorem scanLine_takes {scan scan' : BodyScan} {line : Nat × Text}
    (hscan : scanLine scan line = .ok scan') : Takes scan line scan' := by
  unfold scanLine at hscan
  dsimp only at hscan
  cases hreg : (bodyText line).startsWith ".reg".toList with
  | true =>
    have hne : (bodyText line).isEmpty = false := by
      rw [List.isEmpty_eq_false_iff]
      intro hnil
      rw [hnil] at hreg
      cases hreg
    simp only [hne, hreg, Bool.false_eq_true, if_false, if_true] at hscan
    exact scanReg_takes hreg hscan
  | false =>
    have hline : regDecl line = none := by rw [regDecl, if_neg (by rw [hreg]; decide)]
    have hnothing := takes_nothing scan hline
    simp only [hreg, Bool.false_eq_true, if_false] at hscan
    split at hscan
    · cases hscan
      exact hnothing
    · split at hscan
      · cases hscan
        exact hnothing
      · split at hscan
        · cases hscan
          split
          · exact hnothing
          · exact ⟨hnothing.named, hnothing.count⟩
        · cases hscan
          exact ⟨hnothing.named, hnothing.count⟩

theorem scanLines_take {scan scan' : BodyScan} {lines : List (Nat × Text)}
    (hscan : lines.foldlM scanLine scan = .ok scan') :
    scan'.pendingNamed = scan.pendingNamed ++ lines.filterMap lineNamed ∧
      ∀ b, scan'.cur.count b
        = lines.foldl (fun n line => max n (lineCount b line)) (scan.cur.count b) := by
  induction lines generalizing scan with
  | nil =>
    obtain rfl : scan = scan' := by simpa [pure, Except.pure] using hscan
    exact ⟨by simp, fun b => rfl⟩
  | cons line lines ih =>
    obtain ⟨mid, hline, hrest⟩ := foldlM_cons_ok.mp hscan
    have htakes := scanLine_takes hline
    obtain ⟨hnamed, hcount⟩ := ih hrest
    refine ⟨?_, fun b => ?_⟩
    · rw [hnamed, htakes.named]
      cases hhead : lineNamed line <;> simp [hhead]
    · rw [hcount b, htakes.count b, List.foldl_cons]

/-! ### The names, numbered -/

/-- The names that are numbered, each with its bank, at its first declaration; `seen` are those
before. -/
def namedFrom : List Text → List PendingNamedReg → List (Text × RegBank)
  | _, [] => []
  | seen, nr :: rest =>
      match RegBank.ofType nr.type with
      | none => namedFrom seen rest
      | some b =>
          if seen.elem nr.name then namedFrom seen rest
          else (nr.name, b) :: namedFrom (seen ++ [nr.name]) rest

def namedRegs (lines : List (Nat × Text)) : List (Text × RegBank) :=
  namedFrom [] (lines.filterMap lineNamed)

/-- The aliases of the names, `next` being the next number of each bank. -/
def numberFrom : (RegBank → Nat) → List (Text × RegBank) → List (Text × Text)
  | _, [] => []
  | next, (name, b) :: rest =>
      (name, b.aliasFor (next b % 2 ^ 32)) :: numberFrom (Function.update next b (next b + 1)) rest

/-- The aliases of a body. -/
def aliasTable (lines : List (Nat × Text)) : List (Text × Text) :=
  numberFrom (fun b => firstNumber b lines) (namedRegs lines)

theorem lookup_isSome_iff (table : List (Text × Text)) (name : Text) :
    (table.lookup name).isSome = (table.map Prod.fst).elem name := by
  induction table with
  | nil => rfl
  | cons kv table ih =>
    rw [List.lookup_cons, List.map_cons, List.elem_cons]
    cases name == kv.1 with
    | true => simp
    | false => simpa using ih

theorem assignAlias_seen {a : Aliases} {nr : PendingNamedReg}
    (hseen : nr.name ∈ a.regAlias.map Prod.fst) : assignAlias a nr = a := by
  rw [assignAlias, lookup_isSome_iff, if_pos (List.elem_iff.mpr hseen)]

theorem assignAlias_other {a : Aliases} {nr : PendingNamedReg}
    (htype : RegBank.ofType nr.type = none) : assignAlias a nr = a := by
  unfold RegBank.ofType at htype
  unfold assignAlias
  split
  · rfl
  · split
    · next hwide => simp only [hwide, if_true, reduceCtorEq] at htype
    · next hwide =>
      rw [if_neg hwide] at htype
      split
      · next hnarrow => simp only [hnarrow, if_true, reduceCtorEq] at htype
      · rfl

theorem assignAlias_new {a : Aliases} {nr : PendingNamedReg} {b : RegBank}
    (hnew : nr.name ∉ a.regAlias.map Prod.fst) (htype : RegBank.ofType nr.type = some b) :
    (assignAlias a nr).regAlias = a.regAlias ++ [(nr.name, b.aliasFor (a.cur.count b))] ∧
      ∀ b', (assignAlias a nr).cur.count b'
        = if b' = b then (a.cur.count b + 1) % 2 ^ 32 else a.cur.count b' := by
  have hseen : ((a.regAlias.map Prod.fst).elem nr.name) = false := by
    rwa [← Bool.not_eq_true, List.elem_iff]
  unfold RegBank.ofType at htype
  unfold assignAlias
  rw [lookup_isSome_iff, hseen, if_neg Bool.false_ne_true]
  split at htype
  · next hwide =>
    obtain rfl := Option.some.inj htype
    rw [if_pos hwide]
    refine ⟨rfl, ?_⟩
    rintro (_ | _) <;> rfl
  · next hwide =>
    split at htype
    · next hnarrow =>
      obtain rfl := Option.some.inj htype
      rw [if_neg hwide, if_pos hnarrow]
      refine ⟨rfl, ?_⟩
      rintro (_ | _) <;> rfl
    · cases htype

theorem assignAliases_table (pending : List PendingNamedReg) {a : Aliases} {next : RegBank → Nat}
    (hnext : ∀ b, a.cur.count b = next b % 2 ^ 32) :
    (pending.foldl assignAlias a).regAlias
      = a.regAlias ++ numberFrom next (namedFrom (a.regAlias.map Prod.fst) pending) := by
  induction pending generalizing a next with
  | nil => simp [namedFrom, numberFrom]
  | cons nr pending ih =>
    rw [List.foldl_cons, namedFrom]
    cases htype : RegBank.ofType nr.type with
    | none =>
      rw [assignAlias_other htype]
      exact ih hnext
    | some b =>
      by_cases hseen : nr.name ∈ a.regAlias.map Prod.fst
      · rw [assignAlias_seen hseen]
        dsimp only
        rw [if_pos (List.elem_iff.mpr hseen)]
        exact ih hnext
      · obtain ⟨htable, hcount⟩ := assignAlias_new hseen htype
        have hnext' : ∀ b', (assignAlias a nr).cur.count b'
            = Function.update next b (next b + 1) b' % 2 ^ 32 := by
          intro b'
          rw [hcount b', Function.update_apply]
          split
          · rw [hnext b]
            omega
          · exact hnext b'
        dsimp only
        rw [if_neg (by rwa [List.elem_iff]), numberFrom, ih hnext', htable, hnext b]
        simp

theorem rangeSize_lt (decl : Text) : rangeSize decl < 2 ^ 32 := by
  unfold rangeSize
  split
  · exact Nat.mod_lt _ (by decide)
  · decide

theorem lineCount_lt (b : RegBank) (line : Nat × Text) : lineCount b line < 2 ^ 32 := by
  unfold lineCount
  split
  · split
    · exact rangeSize_lt _
    · decide
  · decide

theorem firstNumber_lt (b : RegBank) (lines : List (Nat × Text)) :
    firstNumber b lines < 2 ^ 32 := by
  suffices hfold : ∀ n < 2 ^ 32,
      lines.foldl (fun n line => max n (lineCount b line)) n < 2 ^ 32 from hfold 0 (by decide)
  induction lines with
  | nil => exact fun n hn => hn
  | cons line lines ih => exact fun n hn => ih _ (max_lt hn (lineCount_lt b line))

/-- **The aliases of a body.** The named registers of a kernel get the numbers behind its ranges. -/
theorem bodyAliases_table {cur : KernelTokens} {lines : List (Nat × Text)} {aliases : Aliases}
    (hfresh : ∀ b, cur.count b = 0) (haliases : bodyAliases cur lines = .ok aliases) :
    aliases.regAlias = aliasTable lines := by
  obtain ⟨scan, hscan, hdone⟩ := bind_ok.mp haliases
  cases hdone
  obtain ⟨hnamed, hcount⟩ := scanLines_take hscan
  have hnext : ∀ b, scan.cur.count b = firstNumber b lines % 2 ^ 32 := by
    intro b
    rw [Nat.mod_eq_of_lt (firstNumber_lt b lines), hcount b, hfresh b, firstNumber]
  rw [assignAliases_table scan.pendingNamed hnext, hnamed]
  rfl

/-! ### Names and numbers of the table -/

theorem mem_namedFrom {seen : List Text} {pending : List PendingNamedReg} {name : Text} :
    name ∈ (namedFrom seen pending).map Prod.fst ↔
      name ∉ seen ∧ ∃ nr ∈ pending, nr.name = name ∧ (RegBank.ofType nr.type).isSome = true := by
  induction pending generalizing seen with
  | nil => simp [namedFrom]
  | cons nr pending ih =>
    rw [namedFrom]
    cases htype : RegBank.ofType nr.type with
    | none => simp [ih, htype]
    | some b =>
      dsimp only
      by_cases hseen : nr.name ∈ seen
      · rw [if_pos (List.elem_iff.mpr hseen), ih]
        constructor
        · rintro ⟨hname, nr', hnr', hrest⟩
          exact ⟨hname, nr', List.mem_cons_of_mem _ hnr', hrest⟩
        · rintro ⟨hname, nr', hnr', rfl, hsome⟩
          rcases List.mem_cons.mp hnr' with rfl | hnr'
          · exact absurd hseen hname
          · exact ⟨hname, nr', hnr', rfl, hsome⟩
      · rw [if_neg (by rwa [List.elem_iff]), List.map_cons, List.mem_cons, ih]
        by_cases hname : name = nr.name
        · simp [hname, hseen, htype]
        · have hname' : nr.name ≠ name := fun h => hname h.symm
          simp [hname, hname']

theorem nodup_namedFrom (seen : List Text) (pending : List PendingNamedReg) :
    ((namedFrom seen pending).map Prod.fst).Nodup := by
  induction pending generalizing seen with
  | nil => exact List.nodup_nil
  | cons nr pending ih =>
    rw [namedFrom]
    cases RegBank.ofType nr.type with
    | none => exact ih seen
    | some b =>
      dsimp only
      split
      · exact ih seen
      · rw [List.map_cons, List.nodup_cons]
        refine ⟨?_, ih _⟩
        rw [mem_namedFrom]
        simp

theorem keys_numberFrom (next : RegBank → Nat) (named : List (Text × RegBank)) :
    (numberFrom next named).map Prod.fst = named.map Prod.fst := by
  induction named generalizing next with
  | nil => rfl
  | cons nr named ih => rw [numberFrom, List.map_cons, List.map_cons, ih]

/-- A name has the number of its bank behind those of the names of the bank before it. -/
theorem mem_numberFrom {next : RegBank → Nat} {named : List (Text × RegBank)} {kv : Text × Text} :
    kv ∈ numberFrom next named ↔
      ∃ before nr after, named = before ++ nr :: after ∧
        kv
          = (nr.1,
            nr.2.aliasFor ((next nr.2 + before.countP fun nr' => nr'.2 == nr.2) % 2 ^ 32)) := by
  induction named generalizing next with
  | nil => simp [numberFrom]
  | cons first named ih =>
    rw [numberFrom, List.mem_cons, ih]
    constructor
    · rintro (rfl | ⟨before, nr, after, rfl, rfl⟩)
      · exact ⟨[], first, named, rfl, rfl⟩
      · refine ⟨first :: before, nr, after, rfl, ?_⟩
        rw [Function.update_apply, List.countP_cons]
        by_cases hbank : nr.2 = first.2
        · simp [hbank, Nat.add_assoc, Nat.add_comm]
        · have hbank' : first.2 ≠ nr.2 := fun h => hbank h.symm
          simp [hbank, hbank']
    · rintro ⟨before, nr, after, hsplit, rfl⟩
      cases before with
      | nil =>
        obtain ⟨rfl, rfl⟩ := List.cons.inj hsplit
        exact .inl rfl
      | cons first' before =>
        obtain ⟨rfl, rfl⟩ := List.cons.inj hsplit
        refine .inr ⟨before, nr, after, rfl, ?_⟩
        rw [Function.update_apply, List.countP_cons]
        by_cases hbank : nr.2 = first.2
        · simp [hbank, Nat.add_assoc, Nat.add_comm]
        · have hbank' : first.2 ≠ nr.2 := fun h => hbank h.symm
          simp [hbank, hbank']

/-! ### Aliases that differ -/

theorem RegBank.aliasFor_inj {b b' : RegBank} {n n' : Nat} :
    b.aliasFor n = b'.aliasFor n' ↔ b = b' ∧ n = n' := by
  -- the `d` of the wide bank is no digit
  have hbanks (m m' : Nat) : RegBank.narrow.aliasFor m ≠ RegBank.wide.aliasFor m' := by
    intro h
    have hd : 'd' ∈ Text.ofNat m := by
      rw [show Text.ofNat m = 'd' :: Text.ofNat m' from List.append_cancel_left h]
      exact List.mem_cons_self ..
    exact Text.not_mem_ofNat (by decide) hd
  constructor
  · intro h
    cases b with
    | narrow =>
      cases b' with
      | narrow => exact ⟨rfl, Text.ofNat_injective (List.append_cancel_left h)⟩
      | wide => exact absurd h (hbanks n n')
    | wide =>
      cases b' with
      | narrow => exact absurd h.symm (hbanks n' n)
      | wide => exact ⟨rfl, Text.ofNat_injective (List.append_cancel_left h)⟩
  · rintro ⟨rfl, rfl⟩
    rfl

/-- Two places of a list are one, or one of them is behind the other. -/
theorem split_cases {α : Type} {a b a' b' : List α} {x y : α} (h : a ++ x :: b = a' ++ y :: b') :
    (a = a' ∧ x = y) ∨ (∃ m, a' = a ++ x :: m ∧ b = m ++ y :: b') ∨
      ∃ m, a = a' ++ y :: m ∧ b' = m ++ x :: b := by
  rcases List.append_eq_append_iff.mp h with ⟨m, ha', hb⟩ | ⟨m, ha, hb⟩
  · cases m with
    | nil =>
      obtain ⟨rfl, -⟩ := List.cons.inj hb
      exact .inl ⟨by simpa using ha'.symm, rfl⟩
    | cons z m =>
      obtain ⟨rfl, htail⟩ := List.cons.inj hb
      exact .inr (.inl ⟨m, ha', htail⟩)
  · cases m with
    | nil =>
      obtain ⟨rfl, -⟩ := List.cons.inj hb
      exact .inl ⟨by simpa using ha, rfl⟩
    | cons z m =>
      obtain ⟨rfl, htail⟩ := List.cons.inj hb
      exact .inr (.inr ⟨m, ha, htail⟩)

theorem exists_countP {α : Type} {p : α → Bool} {xs : List α} {i : Nat} (hi : i < xs.countP p) :
    ∃ a x b, xs = a ++ x :: b ∧ p x = true ∧ a.countP p = i := by
  induction xs generalizing i with
  | nil => simp at hi
  | cons x xs ih =>
    by_cases hx : p x = true
    · cases i with
      | zero => exact ⟨[], x, xs, rfl, hx, rfl⟩
      | succ i =>
        rw [List.countP_cons_of_pos hx] at hi
        obtain ⟨a, y, b, rfl, hy, rfl⟩ := ih (Nat.lt_of_succ_lt_succ hi)
        exact ⟨x :: a, y, b, rfl, hy, List.countP_cons_of_pos hx⟩
    · rw [List.countP_cons_of_neg hx] at hi
      obtain ⟨a, y, b, rfl, hy, rfl⟩ := ih hi
      exact ⟨x :: a, y, b, rfl, hy, List.countP_cons_of_neg hx⟩

/-- How many names are numbered in the bank. -/
def namedCount (b : RegBank) (lines : List (Nat × Text)) : Nat :=
  (namedRegs lines).countP fun nr => nr.2 == b

/-- The number the name is given to which `i` of its bank are known. -/
def numberAt (b : RegBank) (lines : List (Nat × Text)) (i : Nat) : Nat :=
  (firstNumber b lines + i) % 2 ^ 32

theorem mem_aliasTable {lines : List (Nat × Text)} {kv : Text × Text} :
    kv ∈ aliasTable lines ↔ ∃ before nr after, namedRegs lines = before ++ nr :: after ∧
      kv = (nr.1, nr.2.aliasFor (numberAt nr.2 lines (before.countP fun nr' => nr'.2 == nr.2))) :=
  mem_numberFrom

/-- The aliases of a body are those of an interval of numbers in each bank. -/
theorem forall_alias_iff {lines : List (Nat × Text)} {P : Text → Prop} :
    (∀ kv ∈ aliasTable lines, P kv.2) ↔
      ∀ b, ∀ i < namedCount b lines, P (b.aliasFor (numberAt b lines i)) := by
  constructor
  · intro h b i hi
    obtain ⟨before, nr, after, hsplit, hbank, rfl⟩ := exists_countP hi
    obtain rfl : nr.2 = b := by simpa using hbank
    exact h _ (mem_aliasTable.mpr ⟨before, nr, after, hsplit, rfl⟩)
  · intro h kv hkv
    obtain ⟨before, nr, after, hsplit, rfl⟩ := mem_aliasTable.mp hkv
    apply h
    rw [namedCount, hsplit, List.countP_append, List.countP_cons]
    simp

/-- **Distinct aliases.** The aliases of different names differ exactly when neither bank has more
than `2 ^ 32` of them. -/
theorem aliases_distinct_iff (lines : List (Nat × Text)) :
    (∀ kv ∈ aliasTable lines, ∀ kv' ∈ aliasTable lines, kv.1 ≠ kv'.1 → kv.2 ≠ kv'.2) ↔
      ∀ b, namedCount b lines ≤ 2 ^ 32 := by
  have hlater {before m after : List (Text × RegBank)} {nr nr' : Text × RegBank}
      (hcount : ∀ b, namedCount b lines ≤ 2 ^ 32)
      (hsplit : namedRegs lines = (before ++ nr :: m) ++ nr' :: after) :
      nr.2.aliasFor (numberAt nr.2 lines (before.countP fun nr'' => nr''.2 == nr.2))
        ≠ nr'.2.aliasFor (numberAt nr'.2 lines
            ((before ++ nr :: m).countP fun nr'' => nr''.2 == nr'.2)) := by
    intro heq
    obtain ⟨hbank, hnumber⟩ := RegBank.aliasFor_inj.mp heq
    have hle := hcount nr'.2
    rw [namedCount, hsplit, List.countP_append, List.countP_cons] at hle
    rw [hbank, numberAt, numberAt] at hnumber
    rw [List.countP_append, List.countP_cons] at hnumber hle
    simp only [hbank, beq_self_eq_true, if_true] at hnumber hle
    omega
  constructor
  · intro hdistinct b
    by_contra hlarge
    have hzero : 0 < (namedRegs lines).countP fun nr => nr.2 == b := by
      rw [namedCount] at hlarge
      omega
    obtain ⟨before, nr, after, hsplit, hbank, hbefore⟩ := exists_countP hzero
    obtain ⟨before', nr', after', hsplit', hbank', hbefore'⟩ :=
      exists_countP (Nat.lt_of_not_le hlarge)
    rw [beq_iff_eq] at hbank hbank'
    subst hbank
    have hne : nr.1 ≠ nr'.1 := by
      have hnodup := nodup_namedFrom [] (lines.filterMap lineNamed)
      change ((namedRegs lines).map Prod.fst).Nodup at hnodup
      rw [hsplit] at hsplit' hnodup
      intro hname
      rcases split_cases hsplit' with ⟨rfl, -⟩ | ⟨m, rfl, rfl⟩ | ⟨m, rfl, -⟩
      · rw [hbefore] at hbefore'
        exact absurd hbefore' (by decide)
      · simp [hname, List.nodup_append] at hnodup
      · rw [List.countP_append] at hbefore
        omega
    refine hdistinct _ (mem_aliasTable.mpr ⟨before, nr, after, hsplit, rfl⟩) _
      (mem_aliasTable.mpr ⟨before', nr', after', hsplit', rfl⟩) hne ?_
    dsimp only
    rw [hbank', hbefore, hbefore', numberAt, numberAt, Nat.add_zero, Nat.add_mod_right]
  · intro hcount kv hkv kv' hkv' hne
    obtain ⟨before, nr, after, hsplit, rfl⟩ := mem_aliasTable.mp hkv
    obtain ⟨before', nr', after', hsplit', rfl⟩ := mem_aliasTable.mp hkv'
    rcases split_cases (hsplit.symm.trans hsplit') with ⟨rfl, rfl⟩ | ⟨m, rfl, -⟩ | ⟨m, rfl, -⟩
    · exact absurd rfl hne
    · exact hlater hcount hsplit'
    · exact (hlater hcount hsplit).symm

end ProtoGpu
