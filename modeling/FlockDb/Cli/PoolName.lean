import FlockDb.Cli.Workspace

/-!
# The name under which a pool tiers

A pool that goes to sleep files its objects in the tier directory under a name. The name
is made of the last component of the pool's own path: the letters, digits, dashes and
underscores in it, and a constant where it has none. Two pools are apart in a tier as far
as their names differ.
-/

namespace FlockDb

/-- A component of a path, as the operating system gives it. -/
abbrev OsName := List UInt8

/-- What a byte that is not ASCII may begin: the length of the character, and the bounds of
its second byte. -/
def leadOf (b : ℕ) : Option (ℕ × ℕ × ℕ) :=
  if 0xC2 ≤ b ∧ b ≤ 0xDF then some (2, 0x80, 0xBF)
  else if b = 0xE0 then some (3, 0xA0, 0xBF)
  else if b = 0xED then some (3, 0x80, 0x9F)
  else if 0xE1 ≤ b ∧ b ≤ 0xEF then some (3, 0x80, 0xBF)
  else if b = 0xF0 then some (4, 0x90, 0xBF)
  else if 0xF1 ≤ b ∧ b ≤ 0xF3 then some (4, 0x80, 0xBF)
  else if b = 0xF4 then some (4, 0x80, 0x8F)
  else none

/-- Read the rest of a character, or stop where a byte does not go on with it. -/
def decodeRest : ℕ → ℕ → OsName → Char × OsName
  | 0, code, rest => (Char.ofNat code, rest)
  | _ + 1, _, [] => ('\uFFFD', [])
  | n + 1, code, b :: rest =>
    if 0x80 ≤ b.toNat ∧ b.toNat ≤ 0xBF then decodeRest n (code * 64 + (b.toNat - 0x80)) rest
    else ('\uFFFD', b :: rest)

/-- Read one character that a byte begins, or a replacement for what is not one. -/
def decodeOne (b : UInt8) (rest : OsName) : Char × OsName :=
  if b.toNat < 0x80 then (Char.ofNat b.toNat, rest)
  else
    match leadOf b.toNat, rest with
    | none, rest => ('\uFFFD', rest)
    | some _, [] => ('\uFFFD', [])
    | some (width, lower, upper), c :: rest =>
      if lower ≤ c.toNat ∧ c.toNat ≤ upper then
        decodeRest (width - 2) (b.toNat % 2 ^ (7 - width) * 64 + (c.toNat - 0x80)) rest
      else ('\uFFFD', c :: rest)

/-- `to_string_lossy`, as its characters. Each longest stretch that begins a character and
does not end it is one replacement character. -/
def toStringLossy : ℕ → OsName → List Char
  | 0, _ => []
  | _ + 1, [] => []
  | fuel + 1, b :: rest => (decodeOne b rest).1 :: toStringLossy fuel (decodeOne b rest).2

/-- The characters that a pool name keeps. -/
def keptChar (c : Char) : Bool := c.isAlphanum || c = '-' || c = '_'

/-- `pool_name`, from the canonical path of the pool's directory, if there is one. -/
def poolName (canonical : Option (List OsName)) : String :=
  let component := (canonical.bind List.getLast?).getD []
  let name := (toStringLossy component.length component).filter keptChar
  if name.isEmpty then "flock" else String.ofList name

/-- The bytes of a component that a pool name keeps. -/
def keptBytes (component : OsName) : OsName :=
  component.filter fun b => decide (b.toNat < 0x80) && keptChar (Char.ofNat b.toNat)

/-- Only ASCII characters are kept. -/
theorem lt_of_kept {c : Char} (h : keptChar c = true) : c.toNat < 0x80 := by
  have hletter : ∀ lower upper : Char, upper.toNat < 0x80 → c.val ≥ lower.val ∧ c.val ≤ upper.val →
      c.toNat < 0x80 := fun lower upper hupper hc =>
    (UInt32.le_iff_toNat_le.mp hc.2).trans_lt hupper
  simp only [keptChar, Char.isAlphanum, Char.isAlpha, Char.isUpper, Char.isLower, Char.isDigit,
    Bool.or_eq_true, Bool.and_eq_true, decide_eq_true_eq] at h
  rcases h with ((((h | h) | h) | rfl) | rfl)
  · exact hletter 'A' 'Z' (by decide) h
  · exact hletter 'a' 'z' (by decide) h
  · exact hletter '0' '9' (by decide) h
  · decide
  · decide

/-- A character beyond ASCII is not kept. -/
theorem not_kept {n : ℕ} (hn : 0x80 ≤ n) : keptChar (Char.ofNat n) = false := by
  by_cases hvalid : n.isValidChar
  · by_contra hkept
    have hlt := lt_of_kept (Bool.not_eq_false _ ▸ hkept)
    rw [Char.toNat_ofNat, if_pos hvalid] at hlt
    omega
  · rw [Char.ofNat, dif_neg hvalid]
    decide

/-- The replacement character is not kept. -/
theorem replacement_not_kept : keptChar '\uFFFD' = false := by decide

/-- A byte beyond ASCII is not kept. -/
theorem keptBytes_cons {b : UInt8} (hb : 0x80 ≤ b.toNat) (rest : OsName) :
    keptBytes (b :: rest) = keptBytes rest := by
  rw [keptBytes, List.filter_cons_of_neg, ← keptBytes]
  simp [not_kept hb]

/-- What a reading of a character leaves has every byte that is kept, and the character it
read is not kept itself. -/
structure Skips (rest : OsName) (read : Char × OsName) : Prop where
  not_kept : keptChar read.1 = false
  keptBytes_eq : keptBytes read.2 = keptBytes rest
  length_le : read.2.length ≤ rest.length

/-- The rest of a character beyond ASCII skips bytes only that are not kept. -/
theorem skips_decodeRest (n code : ℕ) (rest : OsName) (hcode : 0x80 ≤ code * 64 ^ n) :
    Skips rest (decodeRest n code rest) := by
  induction n generalizing code rest with
  | zero => exact ⟨not_kept (by simpa using hcode), rfl, le_rfl⟩
  | succ n ih =>
    cases rest with
    | nil => exact ⟨replacement_not_kept, rfl, le_rfl⟩
    | cons b rest =>
      rw [decodeRest]
      by_cases hb : 0x80 ≤ b.toNat ∧ b.toNat ≤ 0xBF
      · rw [if_pos hb]
        have hmore : 0x80 ≤ (code * 64 + (b.toNat - 0x80)) * 64 ^ n := by
          refine hcode.trans ?_
          rw [pow_succ', ← mul_assoc]
          exact Nat.mul_le_mul_right _ (Nat.le_add_right _ _)
        obtain ⟨hnot, hkept, hle⟩ := ih _ rest hmore
        exact ⟨hnot, hkept.trans (keptBytes_cons hb.1 rest).symm, hle.trans (Nat.le_succ _)⟩
      · rw [if_neg hb]
        exact ⟨replacement_not_kept, rfl, le_rfl⟩

/-- The lead bytes, by the length of what they begin. -/
theorem leadOf_cases {b width lower upper : ℕ} (hlead : leadOf b = some (width, lower, upper)) :
    0x80 ≤ lower ∧ ((width = 2 ∧ 0xC2 ≤ b ∧ b ≤ 0xDF) ∨
      (width = 3 ∧ 0xE0 ≤ b ∧ b ≤ 0xEF ∧ (b = 0xE0 → 0xA0 ≤ lower)) ∨
      (width = 4 ∧ 0xF0 ≤ b ∧ b ≤ 0xF4 ∧ (b = 0xF0 → 0x90 ≤ lower))) := by
  simp only [leadOf] at hlead
  split_ifs at hlead <;> simp only [Option.some.injEq, Prod.mk.injEq] at hlead <;> omega

/-- What a lead byte and a second byte within its bounds begin is beyond ASCII. -/
theorem code_ge {b c width lower upper : ℕ} (hlead : leadOf b = some (width, lower, upper))
    (hlower : lower ≤ c) :
    0x80 ≤ (b % 2 ^ (7 - width) * 64 + (c - 0x80)) * 64 ^ (width - 2) := by
  rcases leadOf_cases hlead with ⟨hge, ⟨rfl, hb⟩ | ⟨rfl, hb⟩ | ⟨rfl, hb⟩⟩
  · show 0x80 ≤ (b % 32 * 64 + (c - 0x80)) * 1
    omega
  · show 0x80 ≤ (b % 16 * 64 + (c - 0x80)) * 64
    omega
  · show 0x80 ≤ (b % 8 * 64 + (c - 0x80)) * 4096
    omega

/-- A character that does not begin with an ASCII byte skips bytes only that are not kept. -/
theorem skips_decodeOne {b : UInt8} (hb : 0x80 ≤ b.toNat) (rest : OsName) :
    Skips rest (decodeOne b rest) := by
  unfold decodeOne
  rw [if_neg (not_lt.mpr hb)]
  rcases hlead : leadOf b.toNat with _ | ⟨width, lower, upper⟩
  · exact ⟨replacement_not_kept, rfl, le_rfl⟩
  · cases rest with
    | nil => exact ⟨replacement_not_kept, rfl, le_rfl⟩
    | cons c rest =>
      by_cases hc : lower ≤ c.toNat ∧ c.toNat ≤ upper
      · simp only [if_pos hc]
        have hsecond : 0x80 ≤ c.toNat := (leadOf_cases hlead).1.trans hc.1
        obtain ⟨hnot, hkept, hle⟩ := skips_decodeRest (width - 2) _ rest (code_ge hlead hc.1)
        exact ⟨hnot, hkept.trans (keptBytes_cons hsecond rest).symm, hle.trans (Nat.le_succ _)⟩
      · simp only [if_neg hc]
        exact ⟨replacement_not_kept, rfl, le_rfl⟩

/-- The characters kept of a component are its bytes that are kept, however the rest of it
decodes. -/
theorem filter_toStringLossy (fuel : ℕ) (component : OsName) (hfuel : component.length ≤ fuel) :
    (toStringLossy fuel component).filter keptChar =
      (keptBytes component).map fun b => Char.ofNat b.toNat := by
  induction fuel generalizing component with
  | zero =>
    obtain rfl := List.length_eq_zero_iff.mp (Nat.le_zero.mp hfuel)
    rfl
  | succ fuel ih =>
    cases component with
    | nil => rfl
    | cons b rest =>
      rw [List.length_cons] at hfuel
      rw [toStringLossy]
      by_cases hb : b.toNat < 0x80
      · have hone : decodeOne b rest = (Char.ofNat b.toNat, rest) := if_pos hb
        rw [hone, List.filter_cons, ih rest (by omega), keptBytes, keptBytes, List.filter_cons]
        by_cases hkept : keptChar (Char.ofNat b.toNat) = true
        · simp [hb, hkept]
        · simp [hb, hkept]
      · have hge : 0x80 ≤ b.toNat := not_lt.mp hb
        obtain ⟨hnot, hkept, hle⟩ := skips_decodeOne hge rest
        rw [List.filter_cons_of_neg (by simp [hnot]), ih _ (by omega), hkept, keptBytes_cons hge]

/-- The bytes that a pool name keeps of a pool's canonical path. -/
def keptOf (canonical : Option (List OsName)) : OsName :=
  keptBytes ((canonical.bind List.getLast?).getD [])

/-- The bytes of the name that a path without any kept byte gets. -/
def fallbackName : OsName := [0x66, 0x6C, 0x6F, 0x63, 0x6B]

/-- The bytes of the name of a pool. -/
def nameBytes (canonical : Option (List OsName)) : OsName :=
  if keptOf canonical = [] then fallbackName else keptOf canonical

/-- The name of a pool, as bytes. -/
theorem poolName_eq (canonical : Option (List OsName)) :
    poolName canonical =
      String.ofList ((nameBytes canonical).map fun b => Char.ofNat b.toNat) := by
  unfold poolName nameBytes
  simp only [filter_toStringLossy _ _ le_rfl, List.isEmpty_iff, List.map_eq_nil_iff]
  rw [← keptOf]
  by_cases hnone : keptOf canonical = []
  · rw [if_pos hnone, if_pos hnone]
    rfl
  · rw [if_neg hnone, if_neg hnone]

/-- An ASCII byte can be read back off its character. -/
theorem ofNat_toNat_char {b : UInt8} (hb : b.toNat < 0x80) :
    UInt8.ofNat (Char.ofNat b.toNat).toNat = b := by
  have hvalid : b.toNat.isValidChar := Or.inl (by omega)
  rw [Char.toNat_ofNat, if_pos hvalid, UInt8.ofNat_toNat]

/-- ASCII bytes are characters of their own. -/
theorem map_char_inj {k k' : OsName} (hk : ∀ b ∈ k, b.toNat < 0x80) (hk' : ∀ b ∈ k', b.toNat < 0x80)
    (h : (k.map fun b => Char.ofNat b.toNat) = k'.map fun b => Char.ofNat b.toNat) : k = k' := by
  have hback : ∀ k : OsName, (∀ b ∈ k, b.toNat < 0x80) →
      (k.map fun b => Char.ofNat b.toNat).map (fun c => UInt8.ofNat c.toNat) = k := by
    intro k hk
    rw [List.map_map]
    conv_rhs => rw [← List.map_id k]
    exact List.map_congr_left fun b hb => ofNat_toNat_char (hk b hb)
  rw [← hback k hk, h, hback k' hk']

/-- The bytes of a pool's name are ASCII. -/
theorem nameBytes_lt {canonical : Option (List OsName)} {b : UInt8}
    (hb : b ∈ nameBytes canonical) : b.toNat < 0x80 := by
  unfold nameBytes at hb
  by_cases hnone : keptOf canonical = []
  · rw [if_pos hnone] at hb
    have hall : fallbackName.all (fun b => decide (b.toNat < 0x80)) = true := by rfl
    exact of_decide_eq_true (List.all_eq_true.mp hall b hb)
  · rw [if_neg hnone, keptOf, keptBytes, List.mem_filter] at hb
    have hkept := hb.2
    rw [Bool.and_eq_true, decide_eq_true_eq] at hkept
    exact hkept.1

/-- Two pools have one name where the bytes kept of both are the same, up to the constant. -/
theorem poolName_inj {p q : Option (List OsName)} :
    poolName p = poolName q ↔ nameBytes p = nameBytes q := by
  refine ⟨fun h => ?_, fun h => by rw [poolName_eq, poolName_eq, h]⟩
  rw [poolName_eq, poolName_eq, String.ofList_inj] at h
  exact map_char_inj (fun _ => nameBytes_lt) (fun _ => nameBytes_lt) h

/-- Two paths whose last components differ in what a pool name keeps of them, also from the
constant where nothing is kept. -/
structure KeptApart (p q : Option (List OsName)) : Prop where
  kept_ne : keptOf p ≠ keptOf q
  left_named : ¬(keptOf p = [] ∧ keptOf q = fallbackName)
  right_named : ¬(keptOf p = fallbackName ∧ keptOf q = [])

/-- Two pools have different names exactly where their paths are kept apart. -/
theorem poolName_ne_iff (p q : Option (List OsName)) : poolName p ≠ poolName q ↔ KeptApart p q := by
  have hsome : fallbackName ≠ [] := by decide
  rw [ne_eq, poolName_inj, nameBytes, nameBytes]
  by_cases hp : keptOf p = [] <;> by_cases hq : keptOf q = []
  · rw [if_pos hp, if_pos hq]
    exact ⟨fun h => absurd rfl h, fun h => absurd (hp.trans hq.symm) h.kept_ne⟩
  · rw [if_pos hp, if_neg hq]
    refine ⟨fun h => ⟨fun he => hq (he ▸ hp), fun hboth => h hboth.2.symm, ?_⟩, fun h he => ?_⟩
    · exact fun hboth => hq hboth.2
    · exact h.left_named ⟨hp, he.symm⟩
  · rw [if_neg hp, if_pos hq]
    refine ⟨fun h => ⟨fun he => hp (he ▸ hq), fun hboth => hp hboth.1, ?_⟩, fun h he => ?_⟩
    · exact fun hboth => h hboth.1
    · exact h.right_named ⟨he, hq⟩
  · rw [if_neg hp, if_neg hq]
    exact ⟨fun h => ⟨h, fun hboth => hp hboth.1, fun hboth => hq hboth.2⟩, fun h => h.kept_ne⟩

end FlockDb
