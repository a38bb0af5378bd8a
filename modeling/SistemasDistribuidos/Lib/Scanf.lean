import Mathlib.Data.List.TakeWhile
import SistemasDistribuidos.Lib.CText

/-!
`sscanf` of the C standard, for the directives `%[^c]`, `%s` and ordinary characters.

The input of `sscanf` is the C string at its argument: the memory up to the first NUL
(`cstr`).  Directives are carried out in order and the scan stops at the first one that
fails; `sscanf` yields the texts stored so far, so its return value is their number.

* `%[^c]` stores a non-empty run of characters other than `c`, blanks included;
* `%s` skips blanks and stores a non-empty run of characters that are not blank;
* an ordinary character must be the next one of the input.
-/

namespace Scanf

open CText

def nul : Char := '\x00'

/-- The C string that starts at the beginning of `mem`. -/
def cstr (mem : Text) : Text := mem.takeWhile (· ≠ nul)

/-- `isspace` in the C locale. -/
def isspace (c : Char) : Bool :=
  c = ' ' || c = '\t' || c = '\n' || c = '\x0b' || c = '\x0c' || c = '\r'

inductive Directive where
  | lit (c : Char)
  | upTo (c : Char)
  | word

/-- One directive: `none` if it fails, else the text it stores (if any) and the rest of the input. -/
def scan1 : Directive → Text → Option (Option Text × Text)
  | .lit _, [] => none
  | .lit c, x :: rest => if x = c then some (none, rest) else none
  | .upTo c, s =>
    if s.takeWhile (· ≠ c) = [] then none
    else some (some (s.takeWhile (· ≠ c)), s.dropWhile (· ≠ c))
  | .word, s =>
    let s := s.dropWhile isspace
    if s.takeWhile (fun c => !isspace c) = [] then none
    else some (some (s.takeWhile fun c => !isspace c), s.dropWhile fun c => !isspace c)

/-- The texts stored, in order. -/
def sscanf : List Directive → Text → List Text
  | [], _ => []
  | d :: ds, s =>
    match scan1 d s with
    | none => []
    | some (none, rest) => sscanf ds rest
    | some (some t, rest) => t :: sscanf ds rest

/-- How many characters a directive looks at; the NUL that ends the input is one of them. -/
def look1 : Directive → Text → Nat
  | .lit _, _ => 1
  | .upTo c, s => (s.takeWhile (· ≠ c)).length + 1
  | .word, s => (s.takeWhile isspace).length +
      ((s.dropWhile isspace).takeWhile fun c => !isspace c).length + 1

/-- How far into its input the scan looks. -/
def looked : List Directive → Text → Nat
  | [], _ => 0
  | d :: ds, s =>
    match scan1 d s with
    | none => look1 d s
    | some (_, rest) => max (look1 d s) (s.length - rest.length + looked ds rest)

/-! ## Lemmas -/

/-- The longest run of characters with `p` ends where `rest` starts. -/
theorem span_append (p : Char → Bool) (a rest : Text) (ha : ∀ c ∈ a, p c = true)
    (hr : ∀ c ∈ rest.head?, p c = false) :
    (a ++ rest).takeWhile p = a ∧ (a ++ rest).dropWhile p = rest := by
  rw [List.takeWhile_append_of_pos ha, List.dropWhile_append_of_pos ha]
  cases rest with
  | nil => simp
  | cons c rest =>
    have hc : p c = false := hr c (by simp)
    simp [hc]

theorem head_dropWhile (p : Char → Bool) (s : Text) : ∀ c ∈ (s.dropWhile p).head?, p c = false := by
  intro c hc
  have := List.head?_dropWhile_not p s
  rw [Option.mem_def.mp hc] at this
  simpa using this

theorem all_ne_of_notMem (c : Char) (a : Text) (ha : c ∉ a) : ∀ x ∈ a, decide (x ≠ c) = true := by
  intro x hx
  simp only [ne_eq, decide_eq_true_eq]
  rintro rfl
  exact ha hx

/-- Memory that starts with characters other than NUL. -/
theorem cstr_append (a mem : Text) (ha : nul ∉ a) : cstr (a ++ mem) = a ++ cstr mem :=
  List.takeWhile_append_of_pos (all_ne_of_notMem nul a ha)

theorem cstr_append_nul (a rest : Text) (ha : nul ∉ a) : cstr (a ++ nul :: rest) = a := by
  rw [cstr_append a _ ha]
  simp [cstr]

theorem takeWhile_ne_append (c : Char) (a rest : Text) (ha : c ∉ a) :
    (a ++ c :: rest).takeWhile (· ≠ c) = a :=
  (span_append _ a (c :: rest) (all_ne_of_notMem c a ha) (by simp)).1

theorem dropWhile_ne_append (c : Char) (a rest : Text) (ha : c ∉ a) :
    (a ++ c :: rest).dropWhile (· ≠ c) = c :: rest :=
  (span_append _ a (c :: rest) (all_ne_of_notMem c a ha) (by simp)).2

/-- Blanks in front of a word are skipped. -/
theorem dropWhile_blanks (b w rest : Text) (hb : ∀ c ∈ b, isspace c = true)
    (hw : ∀ c ∈ w, isspace c = false) (hne : w ≠ []) :
    (b ++ (w ++ rest)).dropWhile isspace = w ++ rest := by
  refine (span_append isspace b (w ++ rest) hb fun c hc => ?_).2
  obtain ⟨x, xs, rfl⟩ := List.exists_cons_of_ne_nil hne
  obtain rfl : x = c := by simpa using hc
  exact hw x List.mem_cons_self

/-- A run up to the separator `c`, then the separator. -/
theorem sscanf_upTo_lit (c : Char) (ds : List Directive) (a rest : Text) (ha : c ∉ a) :
    sscanf (.upTo c :: .lit c :: ds) (a ++ c :: rest) =
      if a = [] then [] else a :: sscanf ds rest := by
  by_cases h : a = []
  · simp [sscanf, scan1, h]
  · simp only [sscanf, scan1, takeWhile_ne_append c a rest ha, dropWhile_ne_append c a rest ha,
      if_neg h, if_true]

/-- `%s` as the last directive. -/
theorem sscanf_word (s : Text) :
    sscanf [.word] s =
      if (s.dropWhile isspace).takeWhile (fun c => !isspace c) = [] then []
      else [(s.dropWhile isspace).takeWhile fun c => !isspace c] := by
  by_cases h : (s.dropWhile isspace).takeWhile (fun c => !isspace c) = []
  · simp only [sscanf, scan1, if_pos h]
  · simp only [sscanf, scan1, if_neg h]

/-- `%s` on a run without blanks reads the run and whatever follows it up to the next blank. -/
theorem sscanf_word_append (a rest : Text) (ha : ∀ x ∈ a, isspace x = false) (hne : a ≠ []) :
    sscanf [.word] (a ++ rest) = [a ++ rest.takeWhile fun c => !isspace c] := by
  have hnot : ∀ x ∈ a, (!isspace x) = true := fun x hx => by rw [ha x hx]; rfl
  have hdrop := dropWhile_blanks [] a rest (by simp) ha hne
  rw [List.nil_append] at hdrop
  rw [sscanf_word, hdrop, List.takeWhile_append_of_pos hnot, if_neg]
  intro h
  exact hne (List.append_eq_nil_iff.mp h).1

/-- A run and its separator are read, and the scan goes on to store something, exactly when the input
starts with a non-empty run, the separator and an input of which the rest stores that. -/
theorem sscanf_upTo_lit_eq_cons (c : Char) (ds : List Directive) (s t u : Text) (ts : List Text) :
    sscanf (.upTo c :: .lit c :: ds) s = t :: u :: ts ↔
      ∃ rest, s = t ++ c :: rest ∧ t ≠ [] ∧ c ∉ t ∧ sscanf ds rest = u :: ts := by
  constructor
  · intro h
    by_cases hc : c ∈ s
    · obtain ⟨a, rest, rfl, ha⟩ := List.eq_append_cons_of_mem hc
      rw [sscanf_upTo_lit c ds a rest ha] at h
      split at h
      · cases h
      · next hne =>
        obtain ⟨rfl, hrest⟩ := List.cons.inj h
        exact ⟨rest, rfl, hne, ha, hrest⟩
    · -- without the separator the scan stops after the run
      have hall := all_ne_of_notMem c s hc
      have htake : s.takeWhile (· ≠ c) = s := List.takeWhile_eq_self_iff.mpr hall
      have hdrop : s.dropWhile (· ≠ c) = [] := List.dropWhile_eq_nil_iff.mpr hall
      simp only [sscanf, scan1, htake, hdrop] at h
      split at h
      · cases h
      · next heq =>
        split at heq <;> cases heq
      · next heq =>
        split at heq <;> cases heq
        cases h
  · rintro ⟨rest, rfl, hne, ht, hrest⟩
    rw [sscanf_upTo_lit c ds t rest ht, if_neg hne, hrest]

/-- `%s` stores `w` exactly when `w` is the first word of the input. -/
theorem sscanf_word_eq_cons (s w : Text) (ts : List Text) :
    sscanf [.word] s = w :: ts ↔
      ∃ b rest, s = b ++ (w ++ rest) ∧ ts = [] ∧ w ≠ [] ∧ (∀ c ∈ b, isspace c = true) ∧
        (∀ c ∈ w, isspace c = false) ∧ ∀ c ∈ rest.head?, isspace c = true := by
  rw [sscanf_word]
  constructor
  · intro h
    split at h
    · cases h
    · next hne =>
      obtain ⟨rfl, rfl⟩ := List.cons.inj h
      refine ⟨s.takeWhile isspace, (s.dropWhile isspace).dropWhile fun c => !isspace c, ?_, rfl, hne,
        fun c hc => List.mem_takeWhile_imp hc, fun c hc => ?_, fun c hc => ?_⟩
      · rw [List.takeWhile_append_dropWhile, List.takeWhile_append_dropWhile]
      · simpa using List.mem_takeWhile_imp hc
      · simpa using head_dropWhile _ _ c hc
  · rintro ⟨b, rest, rfl, rfl, hne, hb, hw, hrest⟩
    have htake := (span_append (fun c => !isspace c) w rest (fun c hc => by simp [hw c hc])
      (fun c hc => by simp [hrest c hc])).1
    rw [dropWhile_blanks b w rest hb hw hne, htake, if_neg hne]

/-! ## Reads -/

/-- A directive looks at nothing behind the NUL, and leaves no more than it was given. -/
theorem look1_le (d : Directive) (s : Text) : look1 d s ≤ s.length + 1 := by
  cases d with
  | lit c => simp [look1]
  | upTo c =>
    have := (List.takeWhile_prefix (l := s) (fun x => decide (x ≠ c))).length_le
    simpa [look1] using this
  | word =>
    have h1 := congrArg List.length (List.takeWhile_append_dropWhile (p := isspace) (l := s))
    have h2 := (List.takeWhile_prefix (l := s.dropWhile isspace) (fun c => !isspace c)).length_le
    rw [List.length_append] at h1
    simp only [look1]
    omega

theorem scan1_length (d : Directive) (s rest : Text) (o : Option Text)
    (h : scan1 d s = some (o, rest)) : rest.length ≤ s.length := by
  have hsuf : ∀ (p : Char → Bool) (t : Text), (t.dropWhile p).length ≤ t.length :=
    fun p t => (List.dropWhile_suffix p).length_le
  cases d with
  | lit c =>
    cases s with
    | nil => cases h
    | cons x xs =>
      simp only [scan1] at h
      split at h
      · cases h
        simp
      · cases h
  | upTo c =>
    simp only [scan1] at h
    split at h
    · cases h
    · cases h
      exact hsuf _ _
  | word =>
    simp only [scan1] at h
    split at h
    · cases h
    · cases h
      exact Nat.le_trans (hsuf _ _) (hsuf _ _)

/-- A scan looks at nothing behind the NUL. -/
theorem looked_le (ds : List Directive) (s : Text) : looked ds s ≤ s.length + 1 := by
  induction ds generalizing s with
  | nil => simp [looked]
  | cons d ds ih =>
    have hd := look1_le d s
    unfold looked
    split
    · exact hd
    · next o rest h =>
      have h1 := scan1_length d s rest o h
      have h2 := ih rest
      omega

/-- The C string at the beginning of an array ends inside it exactly when the array has a NUL. -/
theorem cstr_length_lt_iff (a mem : Text) : (cstr (a ++ mem)).length < a.length ↔ nul ∈ a := by
  constructor
  · intro h
    by_contra hn
    rw [cstr_append a mem hn, List.length_append] at h
    omega
  · intro h
    obtain ⟨t, r, rfl, ht⟩ := List.eq_append_cons_of_mem h
    rw [List.append_assoc, List.cons_append, cstr_append_nul t _ ht]
    simp

end Scanf
