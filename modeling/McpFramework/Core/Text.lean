import Mathlib.Data.List.DropRight

/-!
# Core — Text

The operations of `str` that the framework uses: `strip_prefix`, `trim` and
`trim_end`, and how a UUID is written. A character is white space as the Unicode
property `White_Space` has it.
-/

namespace McpFramework

def stripPrefix? (s pfx : String) : Option String :=
  if pfx.toList <+: s.toList then some (String.ofList (s.toList.drop pfx.toList.length)) else none

/-- `char::is_whitespace`. -/
def isWhitespace (c : Char) : Bool :=
  (9 ≤ c.toNat && c.toNat ≤ 13) || c.toNat == 0x20 || c.toNat == 0x85 || c.toNat == 0xa0 ||
    c.toNat == 0x1680 || (0x2000 ≤ c.toNat && c.toNat ≤ 0x200a) || c.toNat == 0x2028 ||
    c.toNat == 0x2029 || c.toNat == 0x202f || c.toNat == 0x205f || c.toNat == 0x3000

def trimEnd (s : String) : String := String.ofList (s.toList.rdropWhile isWhitespace)

def trim (s : String) : String := trimEnd (String.ofList (s.toList.dropWhile isWhitespace))

/-- A prefix that is put in front can be taken off again. -/
theorem stripPrefix?_append (pfx s : String) : stripPrefix? (pfx ++ s) pfx = some s := by
  simp [stripPrefix?, String.toList_append]

/-- What is left after a prefix, with the prefix, is the whole. -/
theorem eq_append_of_stripPrefix? {s pfx rest : String} (h : stripPrefix? s pfx = some rest) :
    s = pfx ++ rest := by
  unfold stripPrefix? at h
  split at h
  · next hpre =>
    obtain ⟨tail, htail⟩ := hpre
    cases h
    rw [← htail, List.drop_left]
    apply String.toList_inj.mp
    rw [← htail, String.toList_append, String.toList_ofList]
  · cases h

/-! ## UUIDs -/

abbrev Uuid := BitVec 128

namespace Uuid

/-- `len` hexadecimal digits, from the `start`th on. -/
def hex (u : Uuid) (start len : Nat) : String :=
  String.ofList ((List.range len).map fun i =>
    Nat.digitChar ((u.toNat >>> (4 * (31 - (start + i)))) % 16))

/-- `to_string`: the hyphenated form. -/
def toText (u : Uuid) : String :=
  u.hex 0 8 ++ "-" ++ u.hex 8 4 ++ "-" ++ u.hex 12 4 ++ "-" ++ u.hex 16 4 ++ "-" ++ u.hex 20 12

/-- `simple()`: without the hyphens. -/
def simple (u : Uuid) : String := u.hex 0 32

theorem mem_hex {u : Uuid} {start len : Nat} {ch : Char} (h : ch ∈ (u.hex start len).toList) :
    ∃ n < 16, ch = Nat.digitChar n := by
  rw [hex, String.toList_ofList] at h
  obtain ⟨i, -, rfl⟩ := List.mem_map.mp h
  exact ⟨_, Nat.mod_lt _ (by decide), rfl⟩

/-- Neither `-` nor `:` is a digit. -/
theorem notMem_hex (u : Uuid) (start len : Nat) {ch : Char} (h : ch = '-' ∨ ch = ':') :
    ch ∉ (u.hex start len).toList := by
  intro hmem
  obtain ⟨n, hn, rfl⟩ := mem_hex hmem
  have hdigits : ∀ n < 16, ¬ (Nat.digitChar n = '-' ∨ Nat.digitChar n = ':') := by decide
  exact hdigits n hn h

theorem toList_toText (u : Uuid) : u.toText.toList =
    (u.hex 0 8).toList ++ '-' :: (u.hex 8 4).toList ++ '-' :: (u.hex 12 4).toList ++
      '-' :: (u.hex 16 4).toList ++ '-' :: (u.hex 20 12).toList := by
  simp [toText, String.toList_append]

theorem length_toText (u : Uuid) : u.toText.toList.length = 36 := by
  simp [toList_toText, hex]

theorem colon_notMem_toText (u : Uuid) : ':' ∉ u.toText.toList := by
  have hhex := fun start len => u.notMem_hex start len (.inr (rfl : ':' = ':'))
  simp [toList_toText, hhex]

end Uuid

end McpFramework
