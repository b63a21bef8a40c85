import Xref.Identifier.Comparison
import Xref.Proofs.Unicode.Classes

/-!
# Names with one key, character by character

The key of a name is put together from the keys of its characters. Where each of these is a single
character, which a case-sensitive comparison always grants, two names with one key have as many
characters, and those at the same place begin and continue names alike.
-/

namespace Xref.Comparison

open Identifier

/-- Every character of the text has a key of one character. -/
def KeepsLength (m : Comparison) (s : Text) : Prop :=
  ∀ c ∈ s, (m.key [c]).length = 1

theorem keepsLength_ordinal (s : Text) : KeepsLength .ordinal s :=
  fun _ _ => rfl

theorem key_singleton_ignoreCase (c : Char) : key .ignoreCase [c] = Unicode.lowercase c :=
  List.append_nil _

theorem keepsLength_ignoreCase {s : Text} (h : ∀ c ∈ s, (Unicode.lowercase c).length = 1) :
    KeepsLength .ignoreCase s := by
  intro c hc
  rw [key_singleton_ignoreCase]
  exact h c hc

/-- Only Visual Basic names have keys that may be longer. -/
theorem keepsLength_ofLanguage {l : Language} {s : Text}
    (h : l = .visualBasic → ∀ c ∈ s, (Unicode.lowercase c).length = 1) :
    (ofLanguage l).KeepsLength s := by
  cases l with
  | csharp => exact keepsLength_ordinal s
  | visualBasic => exact keepsLength_ignoreCase (h rfl)

variable {m : Comparison}

theorem key_cons (c : Char) (s : Text) : m.key (c :: s) = m.key [c] ++ m.key s := by
  cases m with
  | ordinal => rfl
  | ignoreCase =>
      rw [key_singleton_ignoreCase]
      rfl

/-- Characters with one key of one character belong to the same classes, and only the underscore
has the key of the underscore. -/
theorem class_eq_of_key_eq {c d : Char} (hc : (m.key [c]).length = 1)
    (h : m.key [c] = m.key [d]) :
    isStart c = isStart d ∧ isPart c = isPart d ∧ (d = '_' → c = '_') := by
  cases m with
  | ordinal =>
      obtain rfl : c = d := (List.cons.inj h).1
      exact ⟨rfl, rfl, id⟩
  | ignoreCase =>
      rw [key_singleton_ignoreCase] at hc h
      obtain ⟨e, he⟩ := List.length_eq_one_iff.1 hc
      rw [key_singleton_ignoreCase] at h
      have hd := h.symm.trans he
      refine ⟨?_, ?_, ?_⟩
      · rw [← Unicode.isStart_of_lowercase he, Unicode.isStart_of_lowercase hd]
      · rw [← Unicode.isPart_of_lowercase he, Unicode.isPart_of_lowercase hd]
      · rintro rfl
        exact Unicode.eq_underscore_of_lowercase h

/-- Texts with one key have the keys of their characters in common. -/
theorem map_key_eq {u v : Text} (hu : m.KeepsLength u) (hv : m.KeepsLength v)
    (h : m.key u = m.key v) : (u.map fun c => m.key [c]) = v.map fun c => m.key [c] := by
  induction u generalizing v with
  | nil =>
      cases v with
      | nil => rfl
      | cons d v =>
          have := hv d List.mem_cons_self
          rw [key_cons d] at h
          have hl := congrArg List.length h
          rw [List.length_append, this] at hl
          cases m <;> simp [key, Text.fold] at hl <;> omega
  | cons c u ih =>
      have hc := hu c List.mem_cons_self
      cases v with
      | nil =>
          have hl := congrArg List.length h
          rw [key_cons c, List.length_append, hc] at hl
          cases m <;> simp [key, Text.fold] at hl
      | cons d v =>
          have hd := hv d List.mem_cons_self
          rw [key_cons c, key_cons d] at h
          obtain ⟨h₁, h₂⟩ := List.append_inj h (hc.trans hd.symm)
          rw [List.map_cons, List.map_cons, h₁,
            ih (fun x hx => hu x (List.mem_cons_of_mem _ hx))
              (fun x hx => hv x (List.mem_cons_of_mem _ hx)) h₂]

/-- A text with the key of a name is a name, and begins with a character of the same key. -/
theorem isName_of_key_eq {c d : Char} {u v : Text} (hu : m.KeepsLength (c :: u))
    (hv : m.KeepsLength (d :: v)) (h : m.key (c :: u) = m.key (d :: v)) (hn : IsName (d :: v)) :
    IsName (c :: u) ∧ m.key [c] = m.key [d] := by
  obtain ⟨h₁, h₂⟩ := List.cons.inj (map_key_eq hu hv h)
  refine ⟨⟨?_, fun e he => ?_⟩, h₁⟩
  · rw [(class_eq_of_key_eq (hu c List.mem_cons_self) h₁).1]
    exact hn.1
  · obtain ⟨f, hf, hk⟩ := List.mem_map.1 (h₂ ▸ List.mem_map_of_mem he)
    rw [(class_eq_of_key_eq (hu e (List.mem_cons_of_mem _ he)) hk.symm).2.1]
    exact hn.2 f hf

end Xref.Comparison
