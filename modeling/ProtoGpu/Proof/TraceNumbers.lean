import ProtoGpu.Proof.JsonRoundTrip
import ProtoGpu.Observability

/-!
# Integers in the trace and the statistics

An event and a counter list are parsed back member by member, and each integer comes back as its own
six digits. The trace is exact on the integers that have no more digits, and on no others.
-/

namespace ProtoGpu

namespace Json

/-! ### Objects filled member by member -/

def emplaceAll (members : List (Text × Value)) (o : Object) : Object :=
  members.foldl (fun o m => emplace m.1 m.2 o) o

theorem sorted_emplaceAll (members : List (Text × Value)) {o : Object} (ho : Sorted o) :
    Sorted (emplaceAll members o) := by
  induction members generalizing o with
  | nil => exact ho
  | cons m members ih => exact ih (sorted_emplace ho)

theorem printableMembers_emplace {k : Text} {v : Value} {o : Object} (ho : PrintableMembers o)
    (hv : Printable v) : PrintableMembers (emplace k v o) := by
  induction o with
  | nil => exact ⟨hv, trivial⟩
  | cons m o ih =>
      obtain ⟨k', v'⟩ := m
      obtain ⟨hfirst, hrest⟩ := ho
      rw [emplace]
      split
      · exact ⟨hv, hfirst, hrest⟩
      · split
        · exact ⟨hfirst, hrest⟩
        · exact ⟨hfirst, ih hrest⟩

theorem printableMembers_emplaceAll {members : List (Text × Value)} {o : Object}
    (hmembers : ∀ m ∈ members, Printable m.2) (ho : PrintableMembers o) :
    PrintableMembers (emplaceAll members o) := by
  induction members generalizing o with
  | nil => exact ho
  | cons m members ih =>
      apply ih (fun m' hm' => hmembers m' (List.mem_cons_of_mem m hm'))
      exact printableMembers_emplace ho (hmembers m List.mem_cons_self)

/-- The first member of a name stays. -/
theorem find?_emplaceAll (k : Text) (members : List (Text × Value)) {o : Object} (ho : Sorted o) :
    find? k (emplaceAll members o) = (find? k o).or (find? k members) := by
  induction members generalizing o with
  | nil => rw [emplaceAll, List.foldl_nil, find?, Option.or_none]
  | cons m members ih =>
      obtain ⟨k', v⟩ := m
      have hfold : emplaceAll ((k', v) :: members) o = emplaceAll members (emplace k' v o) := rfl
      rw [hfold, ih (sorted_emplace ho), find?_emplace k' k v ho, find?]
      by_cases hk : k = k'
      · rw [if_pos hk, if_pos hk, hk, Option.or_assoc, Option.some_or]
      · rw [if_neg hk, if_neg hk]

theorem find?_of_mem {k : Text} {v : Value} {o : Object} (hnodup : (Keys o).Nodup)
    (hmem : (k, v) ∈ o) : find? k o = some v := by
  induction o with
  | nil => cases hmem
  | cons m o ih =>
      obtain ⟨k', v'⟩ := m
      obtain ⟨hnew, hrest⟩ := List.nodup_cons.mp hnodup
      rcases List.mem_cons.mp hmem with heq | hlater
      · obtain ⟨rfl, rfl⟩ := Prod.mk.inj heq
        rw [find?, if_pos rfl]
      · have hne : k ≠ k' := by
          rintro rfl
          exact hnew (List.mem_map.mpr ⟨(k, v), hlater, rfl⟩)
        rw [find?, if_neg hne, ih hrest hlater]

theorem mem_of_find?_eq_some {k : Text} {v : Value} {o : Object} (h : find? k o = some v) :
    (k, v) ∈ o := by
  induction o with
  | nil => cases h
  | cons m o ih =>
      obtain ⟨k', v'⟩ := m
      rw [find?] at h
      split at h
      next heq =>
        obtain rfl := Option.some.inj h
        rw [heq]
        exact List.mem_cons_self
      · exact List.mem_cons_of_mem _ (ih h)

/-- A printed object, read back through one of its names. -/
theorem parse_emplaceAll {members : List (Text × Value)} (hmembers : ∀ m ∈ members, Printable m.2)
    {blank : Text} (hblank : ∀ ch ∈ blank, isSpace ch = true) :
    ∃ v, parse (stringify (.object (emplaceAll members [])) ++ blank) = .ok v
      ∧ ∀ k, v.get? k = (find? k members).map reread := by
  have hnil : Sorted [] := List.Pairwise.nil
  have hprint : Printable (.object (emplaceAll members [])) :=
    ⟨printableMembers_emplaceAll hmembers trivial, sorted_emplaceAll members hnil⟩
  refine ⟨_, parse_stringify hprint hblank, fun k => ?_⟩
  rw [reread, Value.get?, find?_rereadMembers, find?_emplaceAll k members hnil]
  rfl

end Json

open Json

/-! ### Integers -/

/-- Inside the range where a double holds every integer. -/
def Fits (n : Int) : Prop := n.natAbs < 2 ^ 53

/-- The double that is the integer. -/
def exactly (n : Int) : Double := .finite (n < 0) n.natAbs

theorem printable_numberValue {n : Int} (hn : Fits n) : Printable (numberValue n) := by
  have hexp := unitExp_natCast hn
  rw [numberValue, Printable, ofInt_eq hn]
  exact ⟨by positivity, by omega⟩

theorem reread_numberValue {n : Int} (hn : Fits n) :
    reread (numberValue n) = .number (rereadInt n) := by
  rw [numberValue, reread, ofInt_eq hn, rereadDouble, round_toDigits _ hn, rereadInt]

theorem rereadInt_eq_exactly {n : Int} (hn : Fits n) :
    rereadInt n = exactly n ↔ SixDigits n.natAbs := by
  rw [← rereadInt_eq_iff hn, ofInt_eq hn, exactly]

theorem exactly_injective {a b : Int} (h : exactly a = exactly b) : a = b := by
  obtain ⟨hneg, hmag⟩ := Double.finite.inj h
  have hmag' : a.natAbs = b.natAbs := by exact_mod_cast hmag
  have hsign : a < 0 ↔ b < 0 := decide_eq_decide.mp hneg
  omega

theorem numberValue_injective {a b : BitVec 64} (ha : Fits a.toNat) (hb : Fits b.toNat)
    (h : numberValue a.toNat = numberValue b.toNat) : a = b := by
  have heq := Value.number.inj h
  rw [ofInt_eq ha, ofInt_eq hb] at heq
  have hnat : (a.toNat : Int) = b.toNat := exactly_injective heq
  exact BitVec.eq_of_toNat_eq (by exact_mod_cast hnat)

/-- What is printed determines what is read back. -/
theorem rereadInt_of_text {a b : Int} (ha : Fits a) (hb : Fits b)
    (htext : (Double.ofInt a).text = (Double.ofInt b).text) : rereadInt a = rereadInt b := by
  have hend : EndsNumber [] := by simp [EndsNumber]
  obtain ⟨i, hi⟩ := parseNumber_int ha hend 0
  obtain ⟨j, hj⟩ := parseNumber_int hb hend 0
  rw [htext, hj] at hi
  exact (Prod.mk.inj (Except.ok.inj hi)).1.symm

theorem number_text_injective {a b : Int} (ha : Fits a) (hb : Fits b)
    (hsixa : SixDigits a.natAbs) (hsixb : SixDigits b.natAbs) :
    stringify (numberValue a) = stringify (numberValue b) ↔ a = b := by
  refine ⟨fun htext => exactly_injective ?_, fun heq => by rw [heq]⟩
  rw [← (rereadInt_eq_exactly ha).mpr hsixa, ← (rereadInt_eq_exactly hb).mpr hsixb]
  exact rereadInt_of_text ha hb htext

/-! ### Events -/

/-- The integer fields, under the names they are printed with. -/
def Event.integers (e : Event) : List (String × Option Int) :=
  let nat (n : Option (BitVec 64)) : Option Int := n.map fun n => n.toNat
  [ ("ts", some e.ts.toNat), ("kernel_id", nat e.kernelId), ("cta_id", nat e.ctaId),
    ("warp_id", nat e.warpId), ("thread_id", nat e.threadId), ("sm_id", nat e.smId),
    ("stream_id", nat e.streamId), ("cmd_id", nat e.cmdId), ("event_id", nat e.eventId),
    ("pc", e.pc), ("addr", nat e.addr), ("size", nat e.size) ]

def Event.texts (e : Event) : List (String × Option Text) :=
  [ ("cat", some e.category.toText), ("action", some e.action),
    ("lane_mask", e.laneMask.map laneMaskToHex), ("opcode_or_uop", e.opcodeOrUop),
    ("extra", e.extraJson) ]

/-- An integer field the event has. -/
def Event.HasInteger (e : Event) (name : String) (n : Int) : Prop := (name, some n) ∈ e.integers

/-- The line parses, and to the event's own integers. -/
def EventFaithful (e : Event) : Prop :=
  ∃ v, parse (eventToJsonLine e) = .ok v
    ∧ ∀ name n, e.HasInteger name n → v.get? name.toList = some (.number (exactly n))

/-- The members that are there. -/
def presentMembers (members : List (String × Option Value)) : List (Text × Value) :=
  members.filterMap fun m => m.2.map (m.1.toList, ·)

theorem foldl_setOpt (members : List (String × Option Value)) (o : Object) :
    members.foldl setOpt o = emplaceAll (presentMembers members) o := by
  induction members generalizing o with
  | nil => rfl
  | cons m members ih =>
      obtain ⟨name, v⟩ := m
      cases v with
      | none => exact ih o
      | some v => exact ih (emplace name.toList v o)

theorem keys_presentMembers (members : List (String × Option Value)) :
    (Keys (presentMembers members)).Sublist ((members.map Prod.fst).map String.toList) := by
  induction members with
  | nil => exact List.Sublist.refl _
  | cons m members ih =>
      obtain ⟨name, v⟩ := m
      cases v with
      | none => exact ih.cons _
      | some v => exact ih.cons_cons _

theorem mem_presentMembers {members : List (String × Option Value)} {k : Text} {v : Value} :
    (k, v) ∈ presentMembers members ↔ ∃ name, name.toList = k ∧ (name, some v) ∈ members := by
  simp only [presentMembers, List.mem_filterMap, Option.map_eq_some_iff, Prod.mk.injEq]
  constructor
  · rintro ⟨⟨name, w⟩, hmem, v', hv', hname, rfl⟩
    exact ⟨name, hname, by rw [← hv']; exact hmem⟩
  · rintro ⟨name, hname, hmem⟩
    exact ⟨_, hmem, v, rfl, hname, rfl⟩

theorem members_names (e : Event) : (e.members.map Prod.fst).map String.toList
    = ["ts", "cat", "action", "kernel_id", "cta_id", "warp_id", "thread_id", "sm_id", "stream_id",
       "cmd_id", "event_id", "pc", "lane_mask", "opcode_or_uop", "addr", "size", "extra"].map
        String.toList := rfl

theorem nodup_keys_members (e : Event) : (Keys (presentMembers e.members)).Nodup := by
  refine (keys_presentMembers e.members).nodup ?_
  rw [members_names]
  exact List.Nodup.map (fun a b => String.toList_inj.mp) (by decide)

theorem u64Value_eq (n : Option (BitVec 64)) :
    u64Value n = (n.map fun n => (n.toNat : Int)).map numberValue := by
  rw [u64Value, Option.map_map]
  rfl

theorem mem_members {e : Event} {m : String × Option Value} :
    m ∈ e.members ↔ m ∈ e.texts.map (fun f => (f.1, f.2.map .string))
      ∨ m ∈ e.integers.map (fun f => (f.1, f.2.map numberValue)) := by
  simp only [Event.members, Event.texts, Event.integers, u64Value_eq, List.map_cons, List.map_nil,
    List.mem_cons, List.not_mem_nil, or_false, Option.map_some, Option.map_map,
    Function.comp_def]
  tauto

theorem printable_member {e : Event}
    (hprint : ∀ name n, e.HasInteger name n → Printable (numberValue n))
    {m : Text × Value} (hmem : m ∈ presentMembers e.members) : Printable m.2 := by
  obtain ⟨k, v⟩ := m
  obtain ⟨name, -, hname⟩ := mem_presentMembers.mp hmem
  rcases mem_members.mp hname with htext | hinteger
  · obtain ⟨⟨name', s⟩, -, heq⟩ := List.mem_map.mp htext
    obtain ⟨s, -, rfl⟩ := Option.map_eq_some_iff.mp (Prod.mk.inj heq).2
    trivial
  · obtain ⟨⟨name', n⟩, hn, heq⟩ := List.mem_map.mp hinteger
    obtain ⟨n, rfl, rfl⟩ := Option.map_eq_some_iff.mp (Prod.mk.inj heq).2
    exact hprint name' n hn

/-- The line parses, to the members that are there. -/
theorem parse_event_members {e : Event}
    (hprint : ∀ name n, e.HasInteger name n → Printable (numberValue n)) :
    ∃ v, parse (eventToJsonLine e) = .ok v
      ∧ ∀ k, v.get? k = (find? k (presentMembers e.members)).map reread := by
  obtain ⟨v, hparse, hget⟩ := parse_emplaceAll (fun m hm => printable_member hprint hm)
    (show ∀ ch ∈ ['\n'], isSpace ch = true by simp [isSpace])
  rw [← foldl_setOpt] at hparse
  exact ⟨v, hparse, hget⟩

/-- **Printed events.** The line parses, and each integer field comes back as its six digits. -/
theorem parse_eventToJsonLine {e : Event} (hfits : ∀ name n, e.HasInteger name n → Fits n) :
    ∃ v, parse (eventToJsonLine e) = .ok v
      ∧ ∀ name n, e.HasInteger name n → v.get? name.toList = some (.number (rereadInt n)) := by
  obtain ⟨v, hparse, hget⟩ := parse_event_members fun name n hn =>
    printable_numberValue (hfits name n hn)
  refine ⟨v, hparse, fun name n hn => ?_⟩
  have hmem : (name.toList, numberValue n) ∈ presentMembers e.members :=
    mem_presentMembers.mpr ⟨name, rfl, mem_members.mpr (.inr (List.mem_map.mpr ⟨_, hn, rfl⟩))⟩
  rw [hget, find?_of_mem (nodup_keys_members e) hmem, Option.map_some,
    reread_numberValue (hfits name n hn)]

theorem eventFaithful_iff {e : Event} (hfits : ∀ name n, e.HasInteger name n → Fits n) :
    EventFaithful e ↔ ∀ name n, e.HasInteger name n → SixDigits n.natAbs := by
  obtain ⟨v, hparse, hget⟩ := parse_eventToJsonLine hfits
  constructor
  · rintro ⟨v', hparse', hget'⟩ name n hn
    obtain rfl := Except.ok.inj (hparse.symm.trans hparse')
    have heq := (hget name n hn).symm.trans (hget' name n hn)
    exact (rereadInt_eq_exactly (hfits name n hn)).mp (Value.number.inj (Option.some.inj heq))
  · intro hsix
    refine ⟨v, hparse, fun name n hn => ?_⟩
    rw [hget name n hn, (rereadInt_eq_exactly (hfits name n hn)).mpr (hsix name n hn)]

/-! ### Statistics -/

/-- The document parses, and every counter has its own value in it. -/
def StatsFaithful (counters : List (Text × BitVec 64)) (info : StatsMeta) : Prop :=
  ∃ v o, parse (statsToJson counters info) = .ok v ∧ v.get? "counters".toList = some o
    ∧ ∀ k n, (k, n) ∈ counters → o.get? k = some (.number (exactly (n : BitVec 64).toNat))

def counterMembers (counters : List (Text × BitVec 64)) : List (Text × Value) :=
  counters.map fun c => (c.1, numberValue c.2.toNat)

theorem countersObject_eq (counters : List (Text × BitVec 64)) :
    countersObject counters = emplaceAll (counterMembers counters) [] := by
  rw [countersObject, emplaceAll, counterMembers, List.foldl_map]

/-- **Printed statistics.** Each key has the six digits of the first counter of that key. -/
theorem parse_statsToJson {counters : List (Text × BitVec 64)} (info : StatsMeta)
    (hfits : ∀ k n, (k, n) ∈ counters → Fits (n : BitVec 64).toNat) :
    ∃ v o, parse (statsToJson counters info) = .ok v ∧ v.get? "counters".toList = some o
      ∧ ∀ k, o.get? k = (find? k (counterMembers counters)).map reread := by
  have hcounters : ∀ m ∈ counterMembers counters, Printable m.2 := by
    intro m hm
    obtain ⟨⟨k, n⟩, hmem, rfl⟩ := List.mem_map.mp hm
    exact printable_numberValue (hfits k n hmem)
  have hnil : Sorted [] := List.Pairwise.nil
  have hobject : Printable (.object (countersObject counters)) := by
    rw [countersObject_eq]
    exact ⟨printableMembers_emplaceAll hcounters trivial, sorted_emplaceAll _ hnil⟩
  have hversion : Fits info.formatVersion.toNat := by
    have hlt := info.formatVersion.isLt
    rw [Fits]
    omega
  have hmembers : ∀ m ∈ presentMembers (statsMembers counters info), Printable m.2 := by
    simp only [presentMembers, statsMembers, List.filterMap_cons, Option.map_some,
      List.filterMap_nil, List.forall_mem_cons]
    exact ⟨printable_numberValue hversion, trivial, trivial, trivial, hobject, by simp⟩
  obtain ⟨v, hparse, hget⟩ := parse_emplaceAll hmembers (show ∀ ch ∈ [], isSpace ch = true by simp)
  rw [← foldl_setOpt, List.append_nil] at hparse
  have hfound : find? "counters".toList (presentMembers (statsMembers counters info))
      = some (.object (countersObject counters)) := by
    simp [presentMembers, statsMembers, find?]
  refine ⟨v, _, hparse, (hget _).trans (congrArg _ hfound), fun k => ?_⟩
  rw [reread, Value.get?, find?_rereadMembers, countersObject_eq, find?_emplaceAll k _ hnil]
  rfl

theorem find?_counterMembers {counters : List (Text × BitVec 64)} {k : Text} {n : BitVec 64}
    (hmem : (k, n) ∈ counters) :
    ∃ n', (k, n') ∈ counters
      ∧ find? k (counterMembers counters) = some (numberValue (n' : BitVec 64).toNat) := by
  induction counters with
  | nil => cases hmem
  | cons c counters ih =>
      obtain ⟨k', m⟩ := c
      rw [counterMembers, List.map_cons, find?]
      by_cases hk : k = k'
      · refine ⟨m, ?_, if_pos hk⟩
        rw [hk]
        exact List.mem_cons_self
      · have hlater : (k, n) ∈ counters := by
          rcases List.mem_cons.mp hmem with heq | hlater
          · exact absurd (Prod.mk.inj heq).1 hk
          · exact hlater
        obtain ⟨n', hn', hfind⟩ := ih hlater
        exact ⟨n', List.mem_cons_of_mem _ hn', (if_neg hk).trans hfind⟩

theorem statsFaithful_iff {counters : List (Text × BitVec 64)} (info : StatsMeta)
    (hfits : ∀ k n, (k, n) ∈ counters → Fits (n : BitVec 64).toNat) :
    StatsFaithful counters info
      ↔ (∀ k n, (k, n) ∈ counters → SixDigits (n : BitVec 64).toNat)
        ∧ ∀ k n n', (k, n) ∈ counters → (k, n') ∈ counters → n = n' := by
  obtain ⟨v, o, hparse, hobject, hget⟩ := parse_statsToJson info hfits
  constructor
  · rintro ⟨v', o', hparse', hobject', hget'⟩
    obtain rfl := Except.ok.inj (hparse.symm.trans hparse')
    obtain rfl := Option.some.inj (hobject.symm.trans hobject')
    have hread : ∀ k n n', (k, n) ∈ counters → (k, n') ∈ counters →
        find? k (counterMembers counters) = some (numberValue (n' : BitVec 64).toNat) →
        rereadInt n'.toNat = exactly (n : BitVec 64).toNat := by
      intro k n n' hmem hn' hfind
      have heq := (hget k).symm.trans (hget' k n hmem)
      rw [hfind, Option.map_some, reread_numberValue (hfits k n' hn')] at heq
      exact Value.number.inj (Option.some.inj heq)
    -- the first counter of a key is read back for it and for every other of the key
    have hfirst : ∀ k n, (k, n) ∈ counters →
        find? k (counterMembers counters) = some (numberValue n.toNat) ∧ SixDigits n.toNat := by
      intro k n hmem
      obtain ⟨n', hn', hfind⟩ := find?_counterMembers hmem
      have hown := hread k n' n' hn' hn' hfind
      have heq : (n.toNat : Int) = n'.toNat :=
        exactly_injective ((hread k n n' hmem hn' hfind).symm.trans hown)
      rw [show n = n' from BitVec.eq_of_toNat_eq (by exact_mod_cast heq)]
      exact ⟨hfind, (rereadInt_eq_exactly (hfits k n' hn')).mp hown⟩
    refine ⟨fun k n hmem => (hfirst k n hmem).2, fun k n n' hmem hmem' => ?_⟩
    have heq := (hfirst k n hmem).1.symm.trans (hfirst k n' hmem').1
    exact numberValue_injective (hfits k n hmem) (hfits k n' hmem') (Option.some.inj heq)
  · rintro ⟨hsix, hone⟩
    refine ⟨v, o, hparse, hobject, fun k n hmem => ?_⟩
    obtain ⟨n', hn', hfind⟩ := find?_counterMembers hmem
    rw [hget, hfind, Option.map_some, hone k n n' hmem hn', reread_numberValue (hfits k n' hn'),
      (rereadInt_eq_exactly (hfits k n' hn')).mpr (hsix k n' hn')]

/-- **Trace numbers.** -/
theorem trace_faithful_iff (e : Event) (counters : List (Text × BitVec 64)) (info : StatsMeta)
    (a b : Int) :
    ((∀ name n, e.HasInteger name n → Fits n) →
      (EventFaithful e ↔ ∀ name n, e.HasInteger name n → SixDigits n.natAbs))
    ∧ ((∀ k n, (k, n) ∈ counters → Fits (n : BitVec 64).toNat) →
      (StatsFaithful counters info
        ↔ (∀ k n, (k, n) ∈ counters → SixDigits (n : BitVec 64).toNat)
          ∧ ∀ k n n', (k, n) ∈ counters → (k, n') ∈ counters → n = n'))
    ∧ (Fits a → Fits b → SixDigits a.natAbs → SixDigits b.natAbs →
      (stringify (numberValue a) = stringify (numberValue b) ↔ a = b)) :=
  ⟨eventFaithful_iff, statsFaithful_iff info, number_text_injective⟩

theorem trace_faithful_small :
    EventFaithful { ts := 4000000000, pc := some (-3) }
      ∧ StatsFaithful [("cycles".toList, 12)] {}
      ∧ (stringify (numberValue 1000000) = stringify (numberValue 2000000)
        ↔ (1000000 : Int) = 2000000) := by
  obtain ⟨hevent, hstats, htexts⟩ := trace_faithful_iff { ts := 4000000000, pc := some (-3) }
    [("cycles".toList, 12)] {} 1000000 2000000
  have hts : SixDigits 4000000000 := ⟨400000, 4, by norm_num, by norm_num⟩
  have hfields : ∀ name n, Event.HasInteger { ts := 4000000000, pc := some (-3) } name n →
      n = 4000000000 ∨ n = -3 := by
    intro name n hn
    simp only [Event.HasInteger, Event.integers, Option.map_none, List.mem_cons, Prod.mk.injEq,
      Option.some.injEq, reduceCtorEq, and_false, List.not_mem_nil, or_false, false_or] at hn
    rcases hn with ⟨-, rfl⟩ | ⟨-, rfl⟩
    · exact .inl rfl
    · exact .inr rfl
  refine ⟨(hevent fun name n hn => ?_).mpr fun name n hn => ?_,
    (hstats fun k n hn => ?_).mpr ⟨fun k n hn => ?_, fun k n n' hn hn' => ?_⟩,
    htexts (by norm_num [Fits]) (by norm_num [Fits])
      ⟨1, 6, by norm_num, by norm_num⟩ ⟨2, 6, by norm_num, by norm_num⟩⟩
  · rcases hfields name n hn with rfl | rfl
    all_goals norm_num [Fits]
  · rcases hfields name n hn with rfl | rfl
    · exact hts
    · exact sixDigits_of_lt (by norm_num)
  · obtain ⟨-, rfl⟩ := Prod.mk.inj (List.mem_singleton.mp hn)
    rw [Fits]
    decide
  · obtain ⟨-, rfl⟩ := Prod.mk.inj (List.mem_singleton.mp hn)
    exact sixDigits_of_lt (by decide)
  · obtain ⟨-, rfl⟩ := Prod.mk.inj (List.mem_singleton.mp hn)
    obtain ⟨-, rfl⟩ := Prod.mk.inj (List.mem_singleton.mp hn')
    rfl

/-- Warps 0 and 1 of CTA 1 print the same id, and a seven-digit time comes back as another. -/
theorem seven_digits_lost :
    stringify (numberValue 4294967296) = stringify (numberValue 4294967297)
      ∧ ¬ EventFaithful { ts := 1234567 } := by
  constructor
  · have hsame : magText ((4294967296 : ℕ) : ℚ) = magText ((4294967297 : ℕ) : ℚ) := by
      have hexp : Rounding.unitExp 10 6 ((4294967296 : ℕ) : ℚ) = 4
          ∧ Rounding.unitExp 10 6 ((4294967297 : ℕ) : ℚ) = 4 := by
        rw [Rounding.unitExp, Rounding.unitExp, Int.log_natCast, Int.log_natCast]
        norm_num
      have hdigits : Rounding.significand 10 6 ((4294967296 : ℕ) : ℚ)
          = Rounding.significand 10 6 ((4294967297 : ℕ) : ℚ) := by
        rw [Rounding.significand, Rounding.significand, hexp.1, hexp.2, Rounding.halfEven,
          Rounding.halfEven]
        norm_num
      have hne : ((4294967296 : ℕ) : ℚ) ≠ 0 ∧ ((4294967297 : ℕ) : ℚ) ≠ 0 := by norm_num
      rw [magText, magText, if_neg hne.1, if_neg hne.2, hexp.1, hexp.2, hdigits]
    rw [numberValue, numberValue, stringify, stringify, ofInt_eq (by norm_num),
      ofInt_eq (by norm_num)]
    exact hsame
  · have hts : Event.HasInteger { ts := 1234567 } "ts" 1234567 := List.mem_cons_self
    rw [eventFaithful_iff]
    · exact fun h => not_sixDigits (by norm_num) (by norm_num) (h "ts" 1234567 hts)
    · intro name n hn
      simp only [Event.HasInteger, Event.integers, Option.map_none, List.mem_cons, Prod.mk.injEq,
        Option.some.injEq, reduceCtorEq, and_false, List.not_mem_nil, or_false] at hn
      rw [hn.2, Fits]
      decide

end ProtoGpu
