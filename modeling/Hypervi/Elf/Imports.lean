import Hypervi.Elf.Mapper
import Hypervi.Freestanding.Strings

/-!
# The imports

`resolve_import` compares the names of the imports with the one that is wanted, in order,
by `strcmp`.  As that is zero for equal strings only (`Compares`), the first import of the
name is the one that is found.
-/

namespace Hypervi.Elf

open Freestanding

/-- `strcmp` returns, reads neither string behind its NUL, and tells their order. -/
structure Compares (a b : Nat → BitVec 8) (s t : CString) : Prop where
  verdict : Verdict (strcmp s.length a b) s.chars t.chars
  returns : ∃ fuel r, strcmpFrom a b fuel 0 = some r ∧ r.result = strcmp s.length a b ∧
    (∀ i ∈ r.readA, i ≤ s.length) ∧ ∀ i ∈ r.readB, i ≤ t.length

theorem compares_of_spells {a b : Nat → BitVec 8} {s t : CString} (ha : Spells a s)
    (hb : Spells b t) : Compares a b s t := by
  obtain ⟨r, hr, hverdict, hreadA, hreadB⟩ := strcmpFrom_spec ha.from hb.from
  have hend : a (0 + s.length) = 0 ∨ b (0 + s.length) = 0 := by
    rw [Nat.zero_add]
    exact .inl ((ha _ (Nat.le_refl _)).trans s.char_length)
  have hresult := strcmpFrom_result hend hr
  simp only [Nat.zero_add] at hresult hreadA hreadB
  refine ⟨?_, _, r, hr, hresult, hreadA, hreadB⟩
  rwa [hresult] at hverdict

namespace ElfMapper

/-- A pointer to the string `s` is resolved to the first import of this name, or to null. -/
structure ResolvesTo (m : ElfMapper) (name : Nat → BitVec 8) (s : CString) : Prop where
  first : ∀ before imp after, m.mImports = before ++ imp :: after → imp.name.chars = s.chars →
    (∀ i ∈ before, i.name.chars ≠ s.chars) → m.resolveImport name = imp.address
  none : (∀ imp ∈ m.mImports, imp.name.chars ≠ s.chars) → m.resolveImport name = 0

/-- The test of `resolve_import`. -/
theorem strcmp_name_iff {name : Nat → BitVec 8} {s : CString} (h : Spells name s)
    (imp : ElfImport) :
    (strcmp imp.name.length imp.name.char name == 0) = true ↔ imp.name.chars = s.chars := by
  have hself : Spells imp.name.char imp.name := fun _ _ ↦ rfl
  rw [beq_iff_eq]
  exact (compares_of_spells hself h).verdict.zero

theorem resolvesTo_of_spells (m : ElfMapper) {name : Nat → BitVec 8} {s : CString}
    (h : Spells name s) : m.ResolvesTo name s := by
  constructor
  · intro before imp after himports himp hbefore
    have hfind : (m.mImports.find? fun imp ↦
        strcmp imp.name.length imp.name.char name == 0) = some imp := by
      rw [List.find?_eq_some_iff_append]
      refine ⟨(strcmp_name_iff h imp).mpr himp, before, after, himports, fun i hi ↦ ?_⟩
      rw [Bool.not_eq_true', Bool.eq_false_iff, ne_eq, strcmp_name_iff h]
      exact hbefore i hi
    rw [resolveImport, hfind]
  · intro hnone
    have hfind : (m.mImports.find? fun imp ↦
        strcmp imp.name.length imp.name.char name == 0) = .none := by
      rw [List.find?_eq_none]
      intro imp himp
      rw [strcmp_name_iff h]
      exact hnone imp himp
    rw [resolveImport, hfind]

end ElfMapper

/-- **Import lookup.**  `strcmp` orders strings by their unsigned bytes, and an import is
found by its name. -/
theorem import_lookup {a b : Nat → BitVec 8} {s t : CString} (ha : Spells a s) (hb : Spells b t)
    (m : ElfMapper) : Compares a b s t ∧ m.ResolvesTo b t :=
  ⟨compares_of_spells ha hb, m.resolvesTo_of_spells hb⟩

/-- Two imports, of which the second has the name. -/
def twoImports : List ElfImport := [⟨dynstrName, 0x1000⟩, ⟨gotName, 0x2000⟩]

/-- The second one is found. -/
theorem import_lookup_twoImports :
    Compares dynstrName.char gotName.char dynstrName gotName ∧
      (ElfMapper.ofFile (fun _ ↦ 0) twoImports).resolveImport gotName.char = 0x2000 := by
  obtain ⟨hcompares, hresolves⟩ := import_lookup (a := dynstrName.char) (b := gotName.char)
    (fun _ _ ↦ rfl) (fun _ _ ↦ rfl) (ElfMapper.ofFile (fun _ ↦ 0) twoImports)
  refine ⟨hcompares, hresolves.first [⟨dynstrName, 0x1000⟩] ⟨gotName, 0x2000⟩ [] rfl rfl ?_⟩
  intro imp himp
  rw [List.mem_singleton.mp himp]
  decide

end Hypervi.Elf
