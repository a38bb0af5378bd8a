import SistemasDistribuidos.Lib.CString

/-!
JSON text as Python's `json` module reads and writes it.

`loads` is the standard decoder: strict strings, `\u` escapes with surrogate pairs,
integers of any size, `NaN` and the infinities, blanks between tokens and nothing after
the value; `none` where it raises.  A `str` is the list of its code points, since an
escape may stand for a lone surrogate.  A float is kept as the literal it is read from.
A `dict` keeps its pairs in reading order and the last one of a key counts.

`dumps` writes a dict of integers and strings, with `", "` and `": "` between its parts
and everything outside printable ASCII escaped.  `loads_dumps` is the round trip.
-/

namespace Json

open CText CString

/-! ## Values -/

abbrev Str := List Nat

/-- The `str` of a text. -/
def str (s : Text) : Str := s.map Char.toNat

inductive Value where
  | null
  | bool (b : Bool)
  | int (n : Int)
  | float (literal : Text)
  | str (s : Str)
  | list (vs : List Value)
  | dict (kvs : List (Str × Value))

/-- `d.get(key)`: the last pair with that key. -/
def lookup (kvs : List (Str × Value)) (key : Str) : Option Value :=
  (kvs.reverse.find? fun kv => kv.1 = key).map Prod.snd

/-! ## Reading -/

def isBlank (c : Char) : Bool := c = ' ' || c = '\t' || c = '\n' || c = '\r'

def skip (s : Text) : Text := s.dropWhile isBlank

def hexVal (c : Char) : Option Nat :=
  if '0' ≤ c ∧ c ≤ '9' then some (c.toNat - '0'.toNat)
  else if 'a' ≤ c ∧ c ≤ 'f' then some (c.toNat - 'a'.toNat + 10)
  else if 'A' ≤ c ∧ c ≤ 'F' then some (c.toNat - 'A'.toNat + 10)
  else none

def hex4 (a b c d : Char) : Option Nat := do
  let a ← hexVal a
  let b ← hexVal b
  let c ← hexVal c
  let d ← hexVal d
  some (((a * 16 + b) * 16 + c) * 16 + d)

/-- What a backslash and one more character stand for. -/
def escape : Char → Option Nat
  | '"' => some '"'.toNat
  | '\\' => some '\\'.toNat
  | '/' => some '/'.toNat
  | 'b' => some 8
  | 'f' => some 12
  | 'n' => some 10
  | 'r' => some 13
  | 't' => some 9
  | _ => none

/-- The code units of a string, from behind its opening quote, and the rest of the text. -/
def scanUnits : Text → Option (List Nat × Text)
  | [] => none
  | '"' :: s => some ([], s)
  | '\\' :: 'u' :: a :: b :: c :: d :: s => do
    let u ← hex4 a b c d
    let (us, s) ← scanUnits s
    some (u :: us, s)
  | '\\' :: c :: s => do
    let u ← escape c
    let (us, s) ← scanUnits s
    some (u :: us, s)
  | c :: s =>
    if c.toNat < 0x20 ∨ c = '\\' then none
    else (scanUnits s).map fun (us, s) => (c.toNat :: us, s)

def isHigh (u : Nat) : Bool := 0xd800 ≤ u && u < 0xdc00

def isLow (u : Nat) : Bool := 0xdc00 ≤ u && u < 0xe000

/-- Two halves of a surrogate pair become one code point; others stay as they are. -/
def joinSurrogates : List Nat → Str
  | [] => []
  | [u] => [u]
  | u :: v :: us =>
    if isHigh u && isLow v then
      (0x10000 + (u - 0xd800) * 0x400 + (v - 0xdc00)) :: joinSurrogates us
    else u :: joinSurrogates (v :: us)

def scanStr (s : Text) : Option (Str × Text) :=
  (scanUnits s).map fun (us, s) => (joinSurrogates us, s)

/-- The digits of the integer part: a zero alone, or no leading zero. -/
def scanInt : Text → Option (Text × Text)
  | [] => none
  | c :: s =>
    if c = '0' then some (['0'], s)
    else if isdigit c then some ((c :: s).takeWhile isdigit, (c :: s).dropWhile isdigit)
    else none

/-- A point and digits, or nothing. -/
def scanFrac : Text → Text × Text
  | '.' :: c :: s =>
    if isdigit c then ('.' :: (c :: s).takeWhile isdigit, (c :: s).dropWhile isdigit)
    else ([], '.' :: c :: s)
  | s => ([], s)

/-- An `e`, a sign and digits, or nothing. -/
def scanExp : Text → Text × Text
  | e :: s =>
    if e = 'e' ∨ e = 'E' then
      let (sign, r) := match s with
        | '+' :: r => (['+'], r)
        | '-' :: r => (['-'], r)
        | r => ([], r)
      if r.takeWhile isdigit = [] then ([], e :: s)
      else (e :: sign ++ r.takeWhile isdigit, r.dropWhile isdigit)
    else ([], e :: s)
  | [] => ([], [])

/-- A number without its sign. -/
def scanUnsigned (neg : Bool) (s : Text) : Option (Value × Text) := do
  let (int, s) ← scanInt s
  let (frac, s) := scanFrac s
  let (exp, s) := scanExp s
  if frac = [] ∧ exp = [] then
    some (.int (if neg then - (ofDigits int : Int) else ofDigits int), s)
  else some (.float ((if neg then ['-'] else []) ++ int ++ frac ++ exp), s)

def scanNumber : Text → Option (Value × Text)
  | '-' :: s => scanUnsigned true s
  | s => scanUnsigned false s

/-- The fixed words, with what each stands for. -/
def words : List (Text × Value) :=
  [("null".toList, .null), ("true".toList, .bool true), ("false".toList, .bool false),
    ("NaN".toList, .float "NaN".toList), ("Infinity".toList, .float "Infinity".toList),
    ("-Infinity".toList, .float "-Infinity".toList)]

def scanWord (s : Text) : Option (Value × Text) :=
  (words.find? fun w => w.1.isPrefixOf s).map fun w => (w.2, s.drop w.1.length)

mutual

/-- One value.  Each call that spends fuel also reads a character. -/
def scanValue : Nat → Text → Option (Value × Text)
  | 0, _ => none
  | k + 1, s =>
    match s with
    | '"' :: s => (scanStr s).map fun (v, s) => (.str v, s)
    | '{' :: s =>
      match skip s with
      | '}' :: s => some (.dict [], s)
      | s => (scanMembers k s).map fun (kvs, s) => (.dict kvs, s)
    | '[' :: s =>
      match skip s with
      | ']' :: s => some (.list [], s)
      | s => (scanElems k s).map fun (vs, s) => (.list vs, s)
    | s => (scanWord s).or (scanNumber s)

/-- The pairs of a dict up to its closing brace, from the first quote on. -/
def scanMembers : Nat → Text → Option (List (Str × Value) × Text)
  | 0, _ => none
  | k + 1, s =>
    match s with
    | '"' :: s => do
      let (key, s) ← scanStr s
      match skip s with
      | ':' :: s =>
        let (v, s) ← scanValue k (skip s)
        match skip s with
        | '}' :: s => some ([(key, v)], s)
        | ',' :: s =>
          let (kvs, s) ← scanMembers k (skip s)
          some ((key, v) :: kvs, s)
        | _ => none
      | _ => none
    | _ => none

/-- The elements of a list up to its closing bracket. -/
def scanElems : Nat → Text → Option (List Value × Text)
  | 0, _ => none
  | k + 1, s => do
    let (v, s) ← scanValue k s
    match skip s with
    | ']' :: s => some ([v], s)
    | ',' :: s =>
      let (vs, s) ← scanElems k (skip s)
      some (v :: vs, s)
    | _ => none

end

/-- `json.loads`; the length of the text is fuel enough. -/
def loads (s : Text) : Option Value :=
  if s.head? = some '\ufeff' then none
  else do
    let (v, s) ← scanValue (s.length + 1) (skip s)
    if skip s = [] then some v else none

/-! ## Writing -/

/-- What the values written are made of. -/
inductive Field where
  | int (n : Int)
  | str (s : Text)

def Field.value : Field → Value
  | .int n => .int n
  | .str s => .str (Json.str s)

def hexDigit (n : Nat) : Char := "0123456789abcdef".toList.getD n '0'

/-- `\uXXXX`. -/
def escapeUnit (u : Nat) : Text :=
  ['\\', 'u', hexDigit (u / 0x1000 % 16), hexDigit (u / 0x100 % 16), hexDigit (u / 0x10 % 16),
    hexDigit (u % 16)]

/-- Printable ASCII that stands for itself inside quotes. -/
def isPlain (c : Char) : Bool := ' ' ≤ c && c ≤ '~' && c ≠ '"' && c ≠ '\\'

def dumpsChar (c : Char) : Text :=
  if isPlain c then [c]
  else if c = '"' then ['\\', '"']
  else if c = '\\' then ['\\', '\\']
  else if c = '\n' then ['\\', 'n']
  else if c = '\r' then ['\\', 'r']
  else if c = '\t' then ['\\', 't']
  else if c = '\x08' then ['\\', 'b']
  else if c = '\x0c' then ['\\', 'f']
  else if c.toNat < 0x10000 then escapeUnit c.toNat
  else
    escapeUnit (0xd800 + (c.toNat - 0x10000) / 0x400) ++
      escapeUnit (0xdc00 + (c.toNat - 0x10000) % 0x400)

def dumpsStr (s : Text) : Text := '"' :: (s.flatMap dumpsChar ++ ['"'])

def dumpsField : Field → Text
  | .int n => decimalInt n
  | .str s => dumpsStr s

def dumpsPair (kv : Text × Field) : Text := dumpsStr kv.1 ++ [':', ' '] ++ dumpsField kv.2

def dumpsPairs : List (Text × Field) → Text
  | [] => []
  | [kv] => dumpsPair kv
  | kv :: kvs => dumpsPair kv ++ [',', ' '] ++ dumpsPairs kvs

/-- `json.dumps` of a dict. -/
def dumps (kvs : List (Text × Field)) : Text := '{' :: (dumpsPairs kvs ++ ['}'])

/-! ## Round trip -/

/-- A text that stands for itself inside quotes. -/
def Plain (s : Text) : Prop := ∀ c ∈ s, isPlain c = true

def Field.Plain : Field → Prop
  | .int _ => True
  | .str s => Json.Plain s

theorem plain_of_all (s : Text) (h : s.all isPlain = true) : Plain s := List.all_eq_true.mp h

theorem isPlain_spec (c : Char) (h : isPlain c = true) :
    c ≠ '"' ∧ c ≠ '\\' ∧ 0x20 ≤ c.toNat ∧ c.toNat < 0x80 := by
  simp only [isPlain, Bool.and_eq_true, decide_eq_true_eq, ne_eq, decide_not,
    Bool.not_eq_true', decide_eq_false_iff_not] at h
  obtain ⟨⟨⟨h1, h2⟩, h3⟩, h4⟩ := h
  have h1 : ' '.toNat ≤ c.toNat := h1
  have h2 : c.toNat ≤ '~'.toNat := h2
  have e1 : ' '.toNat = 32 := rfl
  have e2 : '~'.toNat = 126 := rfl
  exact ⟨h3, h4, by omega, by omega⟩

theorem scanUnits_plain_cons (c : Char) (s : Text) (h : isPlain c = true) :
    scanUnits (c :: s) = (scanUnits s).map fun (us, s) => (c.toNat :: us, s) := by
  obtain ⟨h1, h2, h3, -⟩ := isPlain_spec c h
  conv_lhs => unfold scanUnits
  split
  · contradiction
  · rename_i he
    exact absurd (List.cons.inj he).1 h1
  · rename_i he
    exact absurd (List.cons.inj he).1 h2
  · rename_i he
    exact absurd (List.cons.inj he).1 h2
  · rename_i he
    obtain ⟨rfl, rfl⟩ := List.cons.inj he
    exact if_neg (not_or.mpr ⟨by omega, h2⟩)

theorem scanUnits_plain (s rest : Text) (hs : Plain s) :
    scanUnits (s ++ '"' :: rest) = some (str s, rest) := by
  induction s with
  | nil => rfl
  | cons c s ih =>
    have hc : isPlain c = true := hs c List.mem_cons_self
    have hs' : Plain s := fun d hd => hs d (List.mem_cons_of_mem c hd)
    rw [List.cons_append, scanUnits_plain_cons c _ hc, ih hs']
    rfl

theorem joinSurrogates_plain (s : Text) (hs : Plain s) : joinSurrogates (str s) = str s := by
  induction s with
  | nil => rfl
  | cons c s ih =>
    have hc := (isPlain_spec c (hs c List.mem_cons_self)).2.2.2
    have hs' : Plain s := fun d hd => hs d (List.mem_cons_of_mem c hd)
    cases s with
    | nil => rfl
    | cons d s =>
      have hhigh : isHigh c.toNat = false := by
        simp only [isHigh, Bool.and_eq_false_iff, decide_eq_false_iff_not]
        omega
      have := ih hs'
      simp only [str, List.map_cons] at this ⊢
      rw [joinSurrogates, hhigh, Bool.false_and, if_neg (by decide), this]

theorem scanStr_plain (s rest : Text) (hs : Plain s) :
    scanStr (s ++ '"' :: rest) = some (str s, rest) := by
  simp only [scanStr, scanUnits_plain s rest hs, Option.map_some, joinSurrogates_plain s hs]

theorem dumpsStr_plain (s : Text) (hs : Plain s) : dumpsStr s = '"' :: (s ++ ['"']) := by
  have h : s.flatMap dumpsChar = s := by
    induction s with
    | nil => rfl
    | cons c s ih =>
      rw [List.flatMap_cons, ih fun d hd => hs d (List.mem_cons_of_mem c hd), dumpsChar,
        if_pos (hs c List.mem_cons_self), List.singleton_append]
  rw [dumpsStr, h]

/-- The characters that may follow a value inside a dict. -/
def Ends (rest : Text) : Prop := ∃ c r, rest = c :: r ∧ (c = ',' ∨ c = '}')

theorem scanFrac_ends (rest : Text) (h : Ends rest) : scanFrac rest = ([], rest) := by
  obtain ⟨c, r, rfl, rfl | rfl⟩ := h <;> rfl

theorem scanExp_ends (rest : Text) (h : Ends rest) : scanExp rest = ([], rest) := by
  obtain ⟨c, r, rfl, rfl | rfl⟩ := h <;> rfl

theorem scanInt_decimal (n : Nat) (rest : Text) (h : Ends rest) :
    scanInt (decimal n ++ rest) = some (decimal n, rest) := by
  have hrest : ∀ c ∈ rest.head?, isdigit c = false := by
    obtain ⟨c, r, rfl, hc⟩ := h
    intro d hd
    obtain rfl : c = d := by simpa using hd
    rcases hc with rfl | rfl <;> rfl
  obtain ⟨ht, hd⟩ := takeWhile_decimal n rest hrest
  rcases Nat.eq_zero_or_pos n with rfl | hn
  · rfl
  · obtain ⟨c, r, hcr, hc⟩ := decimal_head_ne_zero n hn
    have hdig : isdigit c = true := decimal_digits n c (by simp [hcr])
    rw [hcr, List.cons_append] at ht hd ⊢
    rw [scanInt, if_neg hc, if_pos hdig, ht, hd]

theorem scanUnsigned_decimal (neg : Bool) (n : Nat) (rest : Text) (h : Ends rest) :
    scanUnsigned neg (decimal n ++ rest) = some (.int (if neg then - (n : Int) else n), rest) := by
  simp only [scanUnsigned, scanInt_decimal n rest h, Option.bind_eq_bind, Option.bind_some,
    scanFrac_ends rest h, scanExp_ends rest h, and_self, if_true, ofDigits_decimal]

theorem scanNumber_decimalInt (n : Int) (rest : Text) (h : Ends rest) :
    scanNumber (decimalInt n ++ rest) = some (.int n, rest) := by
  cases n with
  | ofNat n =>
    have hs := scanUnsigned_decimal false n rest h
    obtain ⟨c, r, hcr, hc⟩ := decimal_cons n
    have hm : c ≠ '-' := (isdigit_cases c hc).2.1
    simp only [decimalInt]
    rw [hcr, List.cons_append] at hs ⊢
    unfold scanNumber
    split
    next he => exact absurd (List.cons.inj he).1 hm
    next => exact hs
  | negSucc n =>
    have hs := scanUnsigned_decimal true (n + 1) rest h
    simpa [decimalInt, scanNumber, Int.negSucc_eq] using hs

theorem isdigit_ne (c d : Char) (hc : isdigit c = true) (hd : isdigit d = false) : c ≠ d := by
  rintro rfl
  rw [hc] at hd
  cases hd

/-- No word begins like a number: the one with a sign goes on with a letter. -/
theorem scanWord_decimalInt (n : Int) (rest : Text) : scanWord (decimalInt n ++ rest) = none := by
  have hno : ∀ (c : Char) (r : Text), isdigit c = true →
      scanWord (c :: r) = none ∧ scanWord ('-' :: c :: r) = none := by
    intro c r hc
    have hb : ∀ d, isdigit d = false → (d == c) = false :=
      fun d hd => beq_false_of_ne (isdigit_ne c d hc hd).symm
    simp [scanWord, words, List.find?, List.isPrefixOf, hb 'n' rfl, hb 't' rfl, hb 'f' rfl,
      hb 'N' rfl, hb 'I' rfl, hb '-' rfl]
  cases n with
  | ofNat n =>
    obtain ⟨c, r, hcr, hc⟩ := decimal_cons n
    simp only [decimalInt, hcr, List.cons_append]
    exact (hno c _ hc).1
  | negSucc n =>
    obtain ⟨c, r, hcr, hc⟩ := decimal_cons (n + 1)
    simp only [decimalInt, hcr, List.cons_append]
    exact (hno c _ hc).2

/-- What `dumpsField` writes is read back, up to the comma or brace that follows. -/
theorem scanValue_dumpsField (k : Nat) (f : Field) (rest : Text) (hf : f.Plain) (h : Ends rest) :
    scanValue (k + 1) (dumpsField f ++ rest) = some (f.value, rest) := by
  cases f with
  | str s =>
    have hs : Plain s := hf
    simp only [dumpsField, dumpsStr_plain s hs, List.cons_append, List.append_assoc,
      List.nil_append, scanValue, scanStr_plain s rest hs, Option.map_some, Field.value]
  | int n =>
    have hw := scanWord_decimalInt n rest
    have hn := scanNumber_decimalInt n rest h
    obtain ⟨c, r, hcr, hc⟩ := decimalInt_cons n
    have hne : c ≠ '"' ∧ c ≠ '{' ∧ c ≠ '[' := by
      rcases hc with hc | rfl
      · exact ⟨isdigit_ne c _ hc rfl, isdigit_ne c _ hc rfl, isdigit_ne c _ hc rfl⟩
      · decide
    obtain ⟨h1, h2, h3⟩ := hne
    simp only [dumpsField, Field.value]
    rw [hcr, List.cons_append] at hw hn ⊢
    unfold scanValue
    split
    next he => exact absurd (List.cons.inj he).1 h1
    next he => exact absurd (List.cons.inj he).1 h2
    next he => exact absurd (List.cons.inj he).1 h3
    next => rw [hw, hn, Option.none_or]

/-- The pair of the value that a written pair stands for. -/
def pairValue (kv : Text × Field) : Str × Value := (str kv.1, kv.2.value)

def PlainPairs (kvs : List (Text × Field)) : Prop := ∀ kv ∈ kvs, Plain kv.1 ∧ kv.2.Plain

theorem skip_cons (c : Char) (s : Text) (h : isBlank c = false) : skip (c :: s) = c :: s := by
  rw [skip, List.dropWhile_cons_of_neg (by rw [h]; decide)]

theorem skip_blank (s : Text) : skip (' ' :: s) = skip s := rfl

theorem skip_dumpsField (f : Field) (hf : f.Plain) (rest : Text) :
    skip (dumpsField f ++ rest) = dumpsField f ++ rest := by
  cases f with
  | str s =>
    rw [dumpsField, dumpsStr_plain s hf]
    exact skip_cons '"' _ rfl
  | int n =>
    obtain ⟨c, r, hcr, hc⟩ := decimalInt_cons n
    have hb : isBlank c = false := by
      rcases hc with hc | rfl
      · simp [isBlank, isdigit_ne c ' ' hc rfl, isdigit_ne c '\t' hc rfl,
          isdigit_ne c '\n' hc rfl, isdigit_ne c '\r' hc rfl]
      · rfl
    rw [dumpsField, hcr, List.cons_append, skip_cons c _ hb]

theorem dumpsPair_append (kv : Text × Field) (hkv : Plain kv.1) (rest : Text) :
    dumpsPair kv ++ rest = '"' :: (kv.1 ++ '"' :: ':' :: ' ' :: (dumpsField kv.2 ++ rest)) := by
  simp [dumpsPair, dumpsStr_plain kv.1 hkv]

theorem dumpsPairs_head (kv : Text × Field) (kvs : List (Text × Field)) (hkv : Plain kv.1)
    (rest : Text) : ∃ r, dumpsPairs (kv :: kvs) ++ rest = '"' :: r := by
  cases kvs with
  | nil => exact ⟨_, dumpsPair_append kv hkv rest⟩
  | cons kv' kvs =>
    simp only [dumpsPairs, List.append_assoc]
    exact ⟨_, dumpsPair_append kv hkv _⟩

/-- By induction on the pairs: each is read up to its comma, the last up to the brace. -/
theorem scanMembers_dumpsPairs (kvs : List (Text × Field)) (kv : Text × Field) (k : Nat)
    (rest : Text) (hp : PlainPairs (kv :: kvs)) (hk : kvs.length + 2 ≤ k) :
    scanMembers k (dumpsPairs (kv :: kvs) ++ '}' :: rest)
      = some ((kv :: kvs).map pairValue, rest) := by
  obtain ⟨hkey, hval⟩ := hp kv List.mem_cons_self
  induction kvs generalizing kv k with
  | nil =>
    obtain ⟨k, rfl⟩ : ∃ j, k = j + 2 := ⟨k - 2, by simp at hk; omega⟩
    have hv := scanValue_dumpsField k kv.2 ('}' :: rest) hval ⟨_, _, rfl, .inr rfl⟩
    rw [dumpsPairs, dumpsPair_append kv hkey, scanMembers]
    simp only [scanStr_plain kv.1 _ hkey, Option.bind_eq_bind, Option.bind_some,
      skip_cons ':' _ rfl, skip_blank, skip_dumpsField kv.2 hval, hv, skip_cons '}' _ rfl]
    rfl
  | cons kv' kvs ih =>
    obtain ⟨k, rfl⟩ : ∃ j, k = j + 2 := ⟨k - 2, by simp at hk; omega⟩
    have hp' : PlainPairs (kv' :: kvs) := fun x hx => hp x (List.mem_cons_of_mem kv hx)
    obtain ⟨hkey', hval'⟩ := hp' kv' List.mem_cons_self
    have hrest := ih kv' (k + 1) hp' (by simp at hk ⊢; omega) hkey' hval'
    obtain ⟨r, hr⟩ := dumpsPairs_head kv' kvs hkey' ('}' :: rest)
    have hv := scanValue_dumpsField k kv.2
      (',' :: ' ' :: (dumpsPairs (kv' :: kvs) ++ '}' :: rest)) hval ⟨_, _, rfl, .inl rfl⟩
    have hskip : skip (dumpsPairs (kv' :: kvs) ++ '}' :: rest)
        = dumpsPairs (kv' :: kvs) ++ '}' :: rest := by
      rw [hr, skip_cons '"' _ rfl]
    simp only [dumpsPairs, List.append_assoc, List.cons_append, List.nil_append] at hv hskip ⊢
    rw [dumpsPair_append kv hkey, scanMembers]
    simp only [scanStr_plain kv.1 _ hkey, Option.bind_eq_bind, Option.bind_some,
      skip_cons ':' _ rfl, skip_blank, skip_dumpsField kv.2 hval, hv, skip_cons ',' _ rfl, hskip,
      hrest]
    rfl

theorem length_le_dumpsPairs (kvs : List (Text × Field)) :
    kvs.length ≤ (dumpsPairs kvs).length := by
  induction kvs with
  | nil => exact Nat.zero_le _
  | cons kv kvs ih =>
    cases kvs with
    | nil => simp [dumpsPairs, dumpsPair, dumpsStr]
    | cons kv' kvs =>
      simp only [dumpsPairs, List.length_append, List.length_cons] at ih ⊢
      omega

/-- **Round trip** of a dict that is not empty. -/
theorem loads_dumps (kv : Text × Field) (kvs : List (Text × Field))
    (hp : PlainPairs (kv :: kvs)) :
    loads (dumps (kv :: kvs)) = some (.dict ((kv :: kvs).map pairValue)) := by
  have hlen := length_le_dumpsPairs (kv :: kvs)
  obtain ⟨r, hr⟩ := dumpsPairs_head kv kvs (hp kv List.mem_cons_self).1 ['}']
  have hm := scanMembers_dumpsPairs kvs kv (dumps (kv :: kvs)).length [] hp (by
    simp only [dumps, List.length_cons, List.length_append] at hlen ⊢
    omega)
  have hv : scanValue ((dumps (kv :: kvs)).length + 1) (dumps (kv :: kvs))
      = some (.dict ((kv :: kvs).map pairValue), []) := by
    generalize (dumps (kv :: kvs)).length = k at hm
    rw [dumps, scanValue]
    rw [hr] at hm ⊢
    rw [skip_cons '"' _ rfl]
    exact congrArg (Option.map _) hm
  have hskip : skip (dumps (kv :: kvs)) = dumps (kv :: kvs) := skip_cons '{' _ rfl
  rw [loads, if_neg (by simp [dumps]), hskip, hv]
  rfl

end Json
