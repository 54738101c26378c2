import LineGrammar.Text.Quoted
import Mathlib

/-! Written text that reads back in one way. An item delimits itself if, from the left, it is clear
what was written and where it ends; so are lists of such items. Quoted characters are of this kind,
and none of them is written with a tab or a line end. -/

namespace LineGrammar.Text

/-- What follows an item that is written never seems to belong to it. -/
def SelfDelimiting {α : Type} (holds : α → Prop) (write : α → List Char) : Prop :=
  ∀ {first second : α} {rest rest' : List Char}, holds first → holds second →
    write first ++ rest = write second ++ rest' → first = second ∧ rest = rest'

theorem SelfDelimiting.flatMap_inj {α : Type} {holds : α → Prop} {write : α → List Char}
    (delimits : SelfDelimiting holds write) (some : ∀ item, write item ≠ []) {items others : List α}
    (each : ∀ item ∈ items, holds item) (each' : ∀ item ∈ others, holds item)
    (same : items.flatMap write = others.flatMap write) : items = others := by
  induction items generalizing others with
  | nil =>
    cases others with
    | nil => rfl
    | cons other others => simp [some] at same
  | cons item items ih =>
    cases others with
    | nil => simp [some] at same
    | cons other others =>
      obtain ⟨first, later⟩ := List.forall_mem_cons.mp each
      obtain ⟨first', later'⟩ := List.forall_mem_cons.mp each'
      rw [List.flatMap_cons, List.flatMap_cons] at same
      obtain ⟨rfl, rest⟩ := delimits first first' same
      rw [ih later later' rest]

theorem append_cons_inj {separator : Char} {first second rest rest' : List Char}
    (free : separator ∉ first) (free' : separator ∉ second)
    (same : first ++ separator :: rest = second ++ separator :: rest') :
    first = second ∧ rest = rest' := by
  induction first generalizing second with
  | nil =>
    cases second with
    | nil => simpa using same
    | cons d second => exact absurd (List.cons.inj same).1 (List.ne_of_not_mem_cons free')
  | cons c first ih =>
    cases second with
    | nil => exact absurd (List.cons.inj same).1.symm (List.ne_of_not_mem_cons free)
    | cons d second =>
      rw [List.mem_cons, not_or] at free free'
      rw [List.cons_append, List.cons_append, List.cons.injEq] at same
      obtain ⟨rfl, rest⟩ := ih free.2 free'.2 same.2
      exact ⟨by rw [same.1], rest⟩

variable {base n m : Nat}

theorem digitChar_inj (less : n < 16) (less' : m < 16) (same : n.digitChar = m.digitChar) :
    n = m := by
  have each : ∀ n m : Fin 16, n.val.digitChar = m.val.digitChar → n.val = m.val := by decide
  exact each ⟨n, less⟩ ⟨m, less'⟩ same

theorem toDigits_injective (some : 1 < base) (few : base ≤ 16) : (Nat.toDigits base).Injective := by
  intro n m same
  induction n using Nat.strongRecOn generalizing m with
  | ind n ih =>
    rw [Nat.toDigits_eq_if some, Nat.toDigits_eq_if some (n := m)] at same
    have filled (k : Nat) : Nat.toDigits base k ≠ [] := Nat.toDigits_ne_nil
    split at same <;> split at same
    · exact digitChar_inj (by omega) (by omega) (List.singleton_inj.mp same)
    · simpa [filled] using congrArg List.length same
    · simpa [filled] using congrArg List.length same
    · next large large' =>
      obtain ⟨before, last⟩ := List.append_inj' same rfl
      have quotient := ih (n / base) (Nat.div_lt_self (by omega) some) before
      have below (k : Nat) : k % base < 16 := Nat.lt_of_lt_of_le (Nat.mod_lt k (by omega)) few
      have remainder := digitChar_inj (below n) (below m) (List.singleton_inj.mp last)
      rw [← Nat.div_add_mod n base, ← Nat.div_add_mod m base, quotient, remainder]

theorem exists_digitChar (some : 1 < base) {c : Char} (mem : c ∈ Nat.toDigits base n) :
    ∃ digit < base, c = digit.digitChar := by
  induction n using Nat.strongRecOn with
  | ind n ih =>
    rw [Nat.toDigits_eq_if some] at mem
    split at mem
    · next small => exact ⟨n, small, List.mem_singleton.mp mem⟩
    · rcases List.mem_append.mp mem with before | last
      · exact ih (n / base) (Nat.div_lt_self (by omega) some) before
      · exact ⟨n % base, Nat.mod_lt n (by omega), List.mem_singleton.mp last⟩

theorem not_mem_toDigits (some : 1 < base) (few : base ≤ 16) {c : Char}
    (sign : c ∈ ['\t', '\n', '.', '}']) : c ∉ Nat.toDigits base n := by
  have each : ∀ digit : Fin 16, digit.val.digitChar ∉ ['\t', '\n', '.', '}'] := by decide
  intro mem
  obtain ⟨digit, less, rfl⟩ := exists_digitChar some mem
  exact each ⟨digit, by omega⟩ sign

def shortEscapes : List (Char × Char) :=
  [('\x00', '0'), ('\t', 't'), ('\r', 'r'), ('\n', 'n'), ('"', '"'), ('\\', '\\')]

inductive Quoted (c : Char) : List Char → Prop
  | short {sign : Char} (mem : (c, sign) ∈ shortEscapes) : Quoted c ['\\', sign]
  | code : Quoted c ('\\' :: 'u' :: '{' :: (hexDigits c.toNat ++ ['}']))
  | itself (other : c ∉ shortEscapes.map (·.1)) : Quoted c [c]

theorem quoted_quoteChar (c : Char) : Quoted c (quoteChar c) := by
  unfold quoteChar
  split_ifs with null tab carriage newline quotation backslash glyph
  · exact .short (by simp_all [shortEscapes])
  · exact .short (by simp_all [shortEscapes])
  · exact .short (by simp_all [shortEscapes])
  · exact .short (by simp_all [shortEscapes])
  · exact .short (by simp_all [shortEscapes])
  · exact .short (by simp_all [shortEscapes])
  · exact .code
  · exact .itself (by simp_all [shortEscapes])

variable {c d : Char} {text other rest rest' : List Char}

theorem Quoted.ne_nil (quoted : Quoted c text) : text ≠ [] := by
  cases quoted <;> simp

theorem eq_of_shortEscapes {sign : Char} (mem : (c, sign) ∈ shortEscapes)
    (mem' : (d, sign) ∈ shortEscapes) : c = d := by
  have each : ∀ first ∈ shortEscapes, ∀ second ∈ shortEscapes, first.2 = second.2 →
      first.1 = second.1 := by decide
  exact each _ mem _ mem' rfl

theorem unicode_not_mem_shortEscapes : (c, 'u') ∉ shortEscapes := by
  simp [shortEscapes]

theorem ne_backslash (plain : c ∉ shortEscapes.map (·.1)) : c ≠ '\\' := by
  rintro rfl
  simp [shortEscapes] at plain

theorem Quoted.inj (quoted : Quoted c text) (quoted' : Quoted d other)
    (same : text ++ rest = other ++ rest') : c = d ∧ rest = rest' := by
  cases quoted with
  | short mem =>
    cases quoted' with
    | short mem' =>
      obtain ⟨-, rfl, rfl⟩ : True ∧ _ = _ ∧ rest = rest' := by simpa using same
      exact ⟨eq_of_shortEscapes mem mem', rfl⟩
    | code =>
      simp only [List.cons_append, List.cons.injEq] at same
      exact absurd (same.2.1 ▸ mem) unicode_not_mem_shortEscapes
    | itself plain => exact absurd (List.cons.inj same).1.symm (ne_backslash plain)
  | code =>
    cases quoted' with
    | short mem' =>
      simp only [List.cons_append, List.cons.injEq] at same
      exact absurd (same.2.1 ▸ mem') unicode_not_mem_shortEscapes
    | code =>
      simp only [List.cons_append, List.append_assoc, List.nil_append, List.cons.injEq,
        true_and] at same
      have free (k : Nat) : '}' ∉ hexDigits k :=
        not_mem_toDigits (by decide) (by decide) (by decide)
      obtain ⟨digits, rest⟩ := append_cons_inj (free _) (free _) same
      have codes := toDigits_injective (by decide) (by decide) digits
      exact ⟨Char.toNat_inj.mp codes, rest⟩
    | itself plain => exact absurd (List.cons.inj same).1.symm (ne_backslash plain)
  | itself plain =>
    cases quoted' with
    | short _ | code => exact absurd (List.cons.inj same).1 (ne_backslash plain)
    | itself _ => simpa using same

theorem selfDelimiting_quoteChar : SelfDelimiting (fun _ => True) quoteChar :=
  fun _ _ same => (quoted_quoteChar _).inj (quoted_quoteChar _) same

theorem quote_injective : quote.Injective := by
  intro first second same
  rw [← String.toList_inj, quote, quote, String.toList_ofList, String.toList_ofList,
    List.cons_append, List.cons_append, List.cons.injEq] at same
  have inside := List.append_cancel_right same.2
  refine String.toList_inj.mp (selfDelimiting_quoteChar.flatMap_inj ?_ ?_ ?_ inside)
  · exact fun c => (quoted_quoteChar c).ne_nil
  · simp
  · simp

theorem not_mem_quote (sign : c ∈ ['\t', '\n']) (text : String) : c ∉ (quote text).toList := by
  have free (d : Char) : c ∉ quoteChar d := by
    have quoted := quoted_quoteChar d
    generalize quoteChar d = text at quoted
    cases quoted with
    | short mem =>
      have each : ∀ escape ∈ shortEscapes, '\t' ∉ ['\\', escape.2] ∧ '\n' ∉ ['\\', escape.2] := by
        decide
      simp only [List.mem_cons, List.not_mem_nil, or_false] at sign
      rcases sign with rfl | rfl
      · exact (each _ mem).1
      · exact (each _ mem).2
    | code =>
      have digits : c ∉ hexDigits d.toNat :=
        not_mem_toDigits (by decide) (by decide) (by simp_all; tauto)
      simp only [List.mem_cons, List.not_mem_nil, or_false] at sign
      rcases sign with rfl | rfl <;> simp [digits]
    | itself plain =>
      have special : ∀ c ∈ ['\t', '\n'], c ∈ shortEscapes.map (·.1) := by
        simp [shortEscapes]
      exact fun mem => plain (List.mem_singleton.mp mem ▸ special c sign)
  have other : c ≠ '"' := by
    rintro rfl
    simp at sign
  simp [quote, free, other]

end LineGrammar.Text
