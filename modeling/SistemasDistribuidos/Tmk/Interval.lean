import Mathlib.Data.List.FinRange
import SistemasDistribuidos.Tmk.Diff
import SistemasDistribuidos.Tmk.Pages

/-!
# Interval records and their messages, `Tmk/src/interval.c`

A process ends an interval whenever it gives a lock away or reaches a barrier.  The record of
an interval has the vector time at its end and the ranges of the pages written in it.  A
message holds records one behind the other, all in `unsigned short`s:

    ~pid   vector time (NPROCS)   page   page   ~NPROCS first last   page  ...   ~pid  ...

A range of three pages or more has the mark `~NPROCS` before it; one of two pages is sent as
two pages.  Page ids are below the marks, so that a record ends where the next `~pid` stands.
`Tmk_interval_request` sends the records a vector time does not cover, the loop of
`Tmk_interval_incorporate` takes them in and steps over those it has.

    incorporate time insert s (message of ivs)  =  ivs, one after the other     (incorporate_encode)
-/

namespace Tmk

/-! ## Algorithm -/

def NPROCS : Nat := 32

instance : NeZero NPROCS := ⟨by decide⟩

abbrev Proc := Fin NPROCS

abbrev VectorTime := Proc → Nat

structure Interval where
  id : Proc
  vector_time : VectorTime
  ranges : List (Nat × Nat)

/-- `~i`, as it stands in a message. -/
def mark (i : Nat) : Half := ~~~ BitVec.ofNat 16 i

def encodeRange (r : Nat × Nat) : List Half :=
  if r.2 - r.1 > 0 then
    (if r.2 - r.1 > 1 then [mark NPROCS] else []) ++ [BitVec.ofNat 16 r.1, BitVec.ofNat 16 r.2]
  else [BitVec.ofNat 16 r.2]

def encodeTime (vector_time : VectorTime) : List Half := List.ofFn fun k => BitVec.ofNat 16 (vector_time k)

def encodeInterval (iv : Interval) : List Half :=
  mark iv.id :: (encodeTime iv.vector_time ++ iv.ranges.flatMap encodeRange)

/-- The records of `proc_array_[i]` newer than `time`, found from the newest back. -/
def newer (log : List Interval) (i : Proc) (time : Nat) : List Interval :=
  (log.reverse.takeWhile fun iv => decide (time < iv.vector_time i)).reverse

def intervalRequestProc (log : List Interval) (i : Proc) (time : Nat) : List Half :=
  (newer log i time).flatMap encodeInterval

/-- For the processes `0, ..., nprocs - 1`. -/
def intervalRequest (nprocs : Nat) (log : Proc → List Interval) (vector_time : VectorTime) : List Half :=
  ((List.finRange NPROCS).take nprocs).flatMap fun i => intervalRequestProc (log i) i (vector_time i)

/-- `pid = ~*(short *) msgp++`; `none` is an index outside of the arrays. -/
def pidOf (h : Half) : Option Proc :=
  let pid := -h.toInt - 1
  if hpid : 0 ≤ pid ∧ pid < NPROCS then some ⟨pid.toNat, by omega⟩ else none

/-- `(unsigned short) -NPROCS`: what is not below it begins a record. -/
def firstMark : Nat := 65536 - NPROCS

/-- `r`, and either the ranges `rest` that `msg` still has for the record or nothing but `msg`. -/
def addRange (r : Nat × Nat) (msg : List Half) (rest : Option (List (Nat × Nat) × List Half)) :
    Option (List (Nat × Nat) × List Half) :=
  match msg with
  | [] => some ([r], [])
  | u :: _ => if u.toNat < firstMark then rest.map fun x => (r :: x.1, x.2) else some ([r], msg)

/-- The ranges of one record and what follows it; `none` beyond the end of the message. -/
def parseRanges : List Half → Option (List (Nat × Nat) × List Half)
  | [] => none
  | u :: msg =>
    if u = mark NPROCS then
      match msg with
      | first :: last :: msg => addRange (first.toNat, last.toNat) msg (parseRanges msg)
      | _ => none
    else addRange (u.toNat, u.toNat) msg (parseRanges msg)

theorem addRange_length {r : Nat × Nat} {msg msg' : List Half} {rs : List (Nat × Nat)}
    {rest : Option (List (Nat × Nat) × List Half)} (hrest : ∀ rs msg', rest = some (rs, msg') → msg'.length ≤ msg.length)
    (h : addRange r msg rest = some (rs, msg')) : msg'.length ≤ msg.length := by
  unfold addRange at h
  split at h
  · cases h
    exact Nat.le_refl _
  · split at h
    · obtain ⟨⟨rs₁, msg₁⟩, h₁, h₂⟩ := Option.map_eq_some_iff.mp h
      cases h₂
      exact hrest _ _ h₁
    · cases h
      exact Nat.le_refl _

theorem parseRanges_length {msg msg' : List Half} {rs : List (Nat × Nat)}
    (h : parseRanges msg = some (rs, msg')) : msg'.length ≤ msg.length := by
  fun_induction parseRanges msg generalizing rs msg' with
  | case1 => cases h
  | case2 first last msg ih =>
    have := addRange_length (fun _ _ => ih) h
    simp only [List.length_cons]
    omega
  | case3 => cases h
  | case4 u msg _ ih =>
    have := addRange_length (fun _ _ => ih) h
    simp only [List.length_cons]
    omega

section Incorporate

variable {σ : Type*} (time : σ → Proc → Nat) (insert : σ → Interval → Option σ)

/-- The loop of `Tmk_interval_incorporate`.  `time` is `proc_vector_time_` and `insert` what is done with a new
record; `none` is a failure of it or an access outside of the message. -/
def incorporate (s : σ) (msg : List Half) : Option σ :=
  match msg with
  | [] => some s
  | h :: msg =>
    match pidOf h with
    | none => none
    | some pid =>
      if msg.length < NPROCS then none
      else
        let vector_time : VectorTime := fun k => (msg.getD k 0).toNat
        if vector_time pid > time s pid then
          match _hp : parseRanges (msg.drop NPROCS) with
          | none => none
          | some (ranges, rest) =>
            match insert s ⟨pid, vector_time, ranges⟩ with
            | none => none
            | some s => incorporate s rest
        else incorporate s ((msg.drop NPROCS).dropWhile fun u => decide (u.toNat < firstMark))
termination_by msg.length
decreasing_by
  · have := parseRanges_length _hp
    simp only [List.length_drop, List.length_cons] at this ⊢
    omega
  · have := (List.dropWhile_suffix (fun u : Half => decide (u.toNat < firstMark)) (l := msg.drop NPROCS)).length_le
    simp only [List.length_drop, List.length_cons] at this ⊢
    omega

end Incorporate

/-! ## Lemmas -/

/-- What the message format can carry. -/
structure Interval.Wf (iv : Interval) : Prop where
  ranges : iv.ranges ≠ []
  pages : ∀ r ∈ iv.ranges, r.1 ≤ r.2 ∧ r.2 < NPAGES
  time : ∀ k, iv.vector_time k < 2 ^ 16

def splitPair (r : Nat × Nat) : List (Nat × Nat) := if r.2 = r.1 + 1 then [(r.1, r.1), (r.2, r.2)] else [r]

/-- The record as it arrives: a range of two pages is two ranges. -/
def Interval.wire (iv : Interval) : Interval := { iv with ranges := iv.ranges.flatMap splitPair }

@[simp] theorem mark_toNat (i : Nat) (hi : i < 2 ^ 16) : (mark i).toNat = 65535 - i := by
  rw [mark, BitVec.toNat_not, BitVec.toNat_ofNat, Nat.mod_eq_of_lt hi]

theorem page_toNat {a : Nat} (ha : a < NPAGES) : (BitVec.ofNat 16 a : Half).toNat = a := by
  unfold NPAGES at ha
  rw [BitVec.toNat_ofNat, Nat.mod_eq_of_lt (by omega)]

theorem page_ne_mark {a : Nat} (ha : a < NPAGES) : (BitVec.ofNat 16 a : Half) ≠ mark NPROCS := by
  intro h
  have htoNat := congrArg BitVec.toNat h
  rw [page_toNat ha, mark_toNat NPROCS (by decide)] at htoNat
  unfold NPAGES at ha
  unfold NPROCS at htoNat
  omega

theorem page_lt_firstMark {a : Nat} (ha : a < NPAGES) : (BitVec.ofNat 16 a : Half).toNat < firstMark := by
  rw [page_toNat ha]
  exact Nat.lt_trans ha (by decide)

theorem pidOf_mark (i : Proc) : pidOf (mark i) = some i := by
  obtain ⟨i, hi⟩ := i
  revert i
  decide

/-- Nothing, or the beginning of a record. -/
def AtMark (msg : List Half) : Prop := ∀ u ∈ msg.head?, firstMark ≤ u.toNat

theorem atMark_nil : AtMark [] := by simp [AtMark]

theorem atMark_encodeInterval (iv : Interval) (msg : List Half) : AtMark (encodeInterval iv ++ msg) := by
  intro u hu
  simp only [encodeInterval, List.cons_append, List.head?_cons, Option.mem_some_iff] at hu
  have hid : (iv.id : Nat) < 32 := iv.id.isLt
  rw [← hu, mark_toNat iv.id (by omega)]
  unfold firstMark NPROCS
  omega

theorem addRange_end {r : Nat × Nat} {msg : List Half} {rest : Option (List (Nat × Nat) × List Half)}
    (h : AtMark msg) : addRange r msg rest = some ([r], msg) := by
  cases msg with
  | nil => rfl
  | cons u msg =>
    have hu : firstMark ≤ u.toNat := h u (by simp)
    rw [addRange, if_neg (by omega)]

theorem encodeRange_eq (a b : Nat) (hab : a ≤ b) :
    encodeRange (a, b) = if b = a then [BitVec.ofNat 16 b]
      else if b = a + 1 then [BitVec.ofNat 16 a, BitVec.ofNat 16 b]
      else [mark NPROCS, BitVec.ofNat 16 a, BitVec.ofNat 16 b] := by
  unfold encodeRange
  by_cases h0 : b = a
  · rw [if_neg (by simp only; omega), if_pos h0]
  · by_cases h1 : b = a + 1
    · rw [if_pos (by simp only; omega), if_neg (by simp only; omega), if_neg h0, if_pos h1]
      rfl
    · rw [if_pos (by simp only; omega), if_pos (by simp only; omega), if_neg h0, if_neg h1]
      rfl

theorem encodeRange_lt {r : Nat × Nat} (hr : r.1 ≤ r.2 ∧ r.2 < NPAGES) :
    ∀ u ∈ encodeRange r, u.toNat < firstMark := by
  obtain ⟨a, b⟩ := r
  have ha := page_lt_firstMark (a := a) (by simp only at hr; omega)
  have hb := page_lt_firstMark (a := b) (by simp only at hr; omega)
  have hm : (mark NPROCS).toNat < firstMark := by decide
  intro u hu
  rw [encodeRange_eq a b hr.1] at hu
  split at hu
  · simp only [List.mem_singleton] at hu
    rwa [hu]
  · split at hu
    · simp only [List.mem_cons, List.not_mem_nil, or_false] at hu
      rcases hu with rfl | rfl <;> assumption
    · simp only [List.mem_cons, List.not_mem_nil, or_false] at hu
      rcases hu with rfl | rfl | rfl <;> assumption

theorem encodeRange_ne_nil (r : Nat × Nat) : encodeRange r ≠ [] := by
  unfold encodeRange
  split <;> simp

/-- More of the same record. -/
theorem addRange_more {r r' : Nat × Nat} {msg : List Half} {rest : Option (List (Nat × Nat) × List Half)}
    (hr' : r'.1 ≤ r'.2 ∧ r'.2 < NPAGES) :
    addRange r (encodeRange r' ++ msg) rest = rest.map fun x => (r :: x.1, x.2) := by
  obtain ⟨u, us, hus⟩ := List.exists_cons_of_ne_nil (encodeRange_ne_nil r')
  have hu : u.toNat < firstMark := encodeRange_lt hr' u (by rw [hus]; exact .head _)
  rw [hus, List.cons_append, addRange, if_pos hu]

theorem parseRanges_page {a : Nat} (ha : a < NPAGES) (msg : List Half) :
    parseRanges (BitVec.ofNat 16 a :: msg) = addRange (a, a) msg (parseRanges msg) := by
  rw [parseRanges.eq_def]
  simp only [if_neg (page_ne_mark ha), page_toNat ha]

theorem parseRanges_marked {a b : Nat} (ha : a < NPAGES) (hb : b < NPAGES) (msg : List Half) :
    parseRanges (mark NPROCS :: BitVec.ofNat 16 a :: BitVec.ofNat 16 b :: msg) =
      addRange (a, b) msg (parseRanges msg) := by
  rw [parseRanges.eq_def]
  simp only [if_true, page_toNat ha, page_toNat hb]

/-- The ranges of a record are read back, a range of two pages as two. -/
theorem parseRanges_encode (rs : List (Nat × Nat)) (msg : List Half) (hne : rs ≠ [])
    (hrs : ∀ r ∈ rs, r.1 ≤ r.2 ∧ r.2 < NPAGES) (hmsg : AtMark msg) :
    parseRanges (rs.flatMap encodeRange ++ msg) = some (rs.flatMap splitPair, msg) := by
  induction rs with
  | nil => exact absurd rfl hne
  | cons r rs ih =>
    -- what `addRange` makes of the last range of `splitPair r`
    have hadd : ∀ q : Nat × Nat, addRange q (rs.flatMap encodeRange ++ msg)
        (parseRanges (rs.flatMap encodeRange ++ msg)) = some (q :: rs.flatMap splitPair, msg) := by
      intro q
      cases rs with
      | nil => exact addRange_end hmsg
      | cons r' rs' =>
        have hr' := hrs r' (.tail _ (.head _))
        have hrest := ih (by simp) fun r'' hr'' => hrs r'' (.tail _ hr'')
        rw [hrest, List.flatMap_cons, List.append_assoc, addRange_more hr']
        rfl
    obtain ⟨a, b⟩ := r
    obtain ⟨hab, hb⟩ : a ≤ b ∧ b < NPAGES := hrs (a, b) (.head _)
    rw [List.flatMap_cons, List.flatMap_cons, List.append_assoc, encodeRange_eq a b hab]
    by_cases h0 : b = a
    · rw [if_pos h0, List.singleton_append, parseRanges_page hb, hadd, h0]
      simp [splitPair]
    · rw [if_neg h0]
      by_cases h1 : b = a + 1
      · have hsplit : splitPair (a, b) = [(a, a), (b, b)] := if_pos h1
        rw [if_pos h1, List.cons_append, List.singleton_append, parseRanges_page (by omega),
          parseRanges_page hb, hadd, addRange, if_pos (page_lt_firstMark hb), hsplit]
        rfl
      · have hsplit : splitPair (a, b) = [(a, b)] := if_neg h1
        rw [if_neg h1, List.cons_append, List.cons_append, List.singleton_append, parseRanges_marked (by omega) hb,
          hadd, hsplit]
        rfl

theorem encodeTime_length (vt : VectorTime) : (encodeTime vt).length = NPROCS := by
  rw [encodeTime, List.length_ofFn]

theorem encodeTime_getD (vt : VectorTime) (hvt : ∀ k, vt k < 2 ^ 16) (msg : List Half) :
    (fun k : Proc => ((encodeTime vt ++ msg).getD k 0).toNat) = vt := by
  funext k
  have hk : (k : Nat) < (encodeTime vt).length := by rw [encodeTime_length]; exact k.isLt
  rw [List.getD_eq_getElem?_getD, List.getElem?_append_left hk, List.getElem?_eq_getElem hk]
  simpa [encodeTime] using hvt k

section Incorporate

variable {σ : Type*} (time : σ → Proc → Nat) (insert : σ → Interval → Option σ)

/-- What is done with one record. -/
def incorporateOne (s : σ) (iv : Interval) : Option σ :=
  if iv.vector_time iv.id > time s iv.id then insert s iv.wire else some s

theorem incorporate_cons (s : σ) (iv : Interval) (hiv : iv.Wf) (msg : List Half) (hmsg : AtMark msg) :
    incorporate time insert s (encodeInterval iv ++ msg) =
      (incorporateOne time insert s iv).bind fun s => incorporate time insert s msg := by
  have hlen : ¬ (encodeTime iv.vector_time ++ (iv.ranges.flatMap encodeRange ++ msg)).length < NPROCS := by
    rw [List.length_append, encodeTime_length]
    omega
  have hdrop : (encodeTime iv.vector_time ++ (iv.ranges.flatMap encodeRange ++ msg)).drop NPROCS =
      iv.ranges.flatMap encodeRange ++ msg := by
    rw [← encodeTime_length iv.vector_time, List.drop_left]
  have hparse := parseRanges_encode iv.ranges msg hiv.ranges hiv.pages hmsg
  have htime := encodeTime_getD iv.vector_time hiv.time (iv.ranges.flatMap encodeRange ++ msg)
  have hpid := congrFun htime iv.id
  rw [encodeInterval, List.cons_append, List.append_assoc, incorporate]
  simp only [pidOf_mark, if_neg hlen, htime, hpid]
  rw [hdrop]
  unfold incorporateOne
  by_cases hnew : iv.vector_time iv.id > time s iv.id
  · rw [if_pos hnew, if_pos hnew]
    split
    · next hp =>
      rw [hparse] at hp
      cases hp
    · next rs rest hp =>
      rw [hparse] at hp
      cases hp
      show (match insert s iv.wire with | none => none | some s => incorporate time insert s msg) = _
      cases insert s iv.wire <;> rfl
  · have hskip : (iv.ranges.flatMap encodeRange ++ msg).dropWhile (fun u => decide (u.toNat < firstMark)) = msg := by
      rw [List.dropWhile_append_of_pos]
      · cases msg with
        | nil => rfl
        | cons u msg =>
          have hu : firstMark ≤ u.toNat := hmsg u (by simp)
          rw [List.dropWhile_cons_of_neg (by simpa using hu)]
      · intro u hu
        obtain ⟨r, hr, hu⟩ := List.mem_flatMap.mp hu
        exact decide_eq_true (encodeRange_lt (hiv.pages r hr) u hu)
    rw [if_neg hnew, if_neg hnew, hskip]
    rfl

/-- A message is taken in record by record. -/
theorem incorporate_encode (s : σ) (ivs : List Interval) (hivs : ∀ iv ∈ ivs, iv.Wf) :
    incorporate time insert s (ivs.flatMap encodeInterval) = ivs.foldlM (incorporateOne time insert) s := by
  induction ivs generalizing s with
  | nil =>
    rw [List.flatMap_nil, incorporate]
    rfl
  | cons iv ivs ih =>
    have hmark : AtMark (ivs.flatMap encodeInterval) := by
      cases ivs with
      | nil => exact atMark_nil
      | cons iv' ivs' =>
        rw [List.flatMap_cons]
        exact atMark_encodeInterval iv' _
    rw [List.flatMap_cons, incorporate_cons time insert s iv (hivs iv (.head _)) _ hmark, List.foldlM_cons]
    exact Option.bind_congr fun t _ => ih t fun iv' hiv' => hivs iv' (.tail _ hiv')

end Incorporate

/-! ## The records a request asks for -/

/-- The page is in one of the ranges. -/
def Interval.covers (iv : Interval) (page : Nat) : Bool := iv.ranges.any fun r => decide (r.1 ≤ page ∧ page ≤ r.2)

theorem Interval.covers_iff (iv : Interval) (page : Nat) :
    iv.covers page = true ↔ ∃ r ∈ iv.ranges, r.1 ≤ page ∧ page ≤ r.2 := by
  rw [Interval.covers, List.any_eq_true]
  simp only [decide_eq_true_eq]

theorem splitPair_covers (r : Nat × Nat) (page : Nat) :
    (∃ r' ∈ splitPair r, r'.1 ≤ page ∧ page ≤ r'.2) ↔ r.1 ≤ page ∧ page ≤ r.2 := by
  unfold splitPair
  split
  · next h =>
    simp only [List.mem_cons, List.not_mem_nil, or_false, exists_eq_or_imp, exists_eq_left]
    omega
  · simp only [List.mem_singleton, exists_eq_left]

/-- The same pages are sent. -/
@[simp] theorem Interval.wire_covers (iv : Interval) (page : Nat) : iv.wire.covers page = iv.covers page := by
  rw [Bool.eq_iff_iff, covers_iff, covers_iff]
  constructor
  · rintro ⟨r', hr', hpage⟩
    obtain ⟨r, hr, hr'⟩ := List.mem_flatMap.mp hr'
    exact ⟨r, hr, (splitPair_covers r page).mp ⟨r', hr', hpage⟩⟩
  · rintro ⟨r, hr, hpage⟩
    obtain ⟨r', hr', hpage⟩ := (splitPair_covers r page).mpr hpage
    exact ⟨r', List.mem_flatMap.mpr ⟨r, hr, hr'⟩, hpage⟩

/-- Records of one process, numbered from 1. -/
def Numbered (i : Proc) (log : List Interval) : Prop :=
  ∀ k iv, log[k]? = some iv → iv.id = i ∧ iv.vector_time i = k + 1

theorem newer_eq_drop (i : Proc) (log : List Interval) (hlog : Numbered i log) (time : Nat) :
    newer log i time = log.drop time := by
  have hdrop : ∀ iv ∈ (log.drop time).reverse, decide (time < iv.vector_time i) = true := by
    intro iv hiv
    obtain ⟨k, hk⟩ := List.mem_iff_getElem?.mp (List.mem_reverse.mp hiv)
    rw [List.getElem?_drop] at hk
    have := (hlog _ _ hk).2
    exact decide_eq_true (by omega)
  have htake : ∀ iv ∈ (log.take time).reverse.head?, decide (time < iv.vector_time i) = false := by
    intro iv hiv
    obtain ⟨k, hk⟩ := List.mem_iff_getElem?.mp (List.mem_reverse.mp (List.mem_of_mem_head? hiv))
    have hkt : k < time := by
      have := (List.getElem?_eq_some_iff.mp hk).1
      rw [List.length_take] at this
      omega
    rw [List.getElem?_take_of_lt hkt] at hk
    have := (hlog _ _ hk).2
    exact decide_eq_false (by omega)
  have hsplit : log.reverse = (log.drop time).reverse ++ (log.take time).reverse := by
    rw [← List.reverse_append, List.take_append_drop]
  rw [newer, hsplit, List.takeWhile_append_of_pos hdrop]
  have hnil : (log.take time).reverse.takeWhile (fun iv => decide (time < iv.vector_time i)) = [] := by
    cases hrev : (log.take time).reverse with
    | nil => rfl
    | cons iv ivs =>
      rw [List.takeWhile_cons_of_neg]
      simpa using htake iv (by rw [hrev]; rfl)
  rw [hnil, List.append_nil, List.reverse_reverse]

/-- The records that `vector_time` does not cover, one process after the other. -/
def records (nprocs : Nat) (log : Proc → List Interval) (vector_time : VectorTime) : List Interval :=
  ((List.finRange NPROCS).take nprocs).flatMap fun i => (log i).drop (vector_time i)

theorem intervalRequest_eq (nprocs : Nat) (log : Proc → List Interval) (hlog : ∀ i, Numbered i (log i))
    (v : VectorTime) : intervalRequest nprocs log v = (records nprocs log v).flatMap encodeInterval := by
  unfold intervalRequest records
  rw [List.flatMap_assoc]
  refine List.flatMap_congr fun i _ => ?_
  rw [intervalRequestProc, newer_eq_drop i (log i) (hlog i)]

/-! ## Top theorems -/

/-- **The round trip of a message.**  What the process that grants a lock writes for the vector time of the request is
read back record by record: those the vector time does not cover, each with its vector time and the same pages.  The
records that the receiver has by now are stepped over. -/
theorem incorporate_intervalRequest {σ : Type*} (time : σ → Proc → Nat) (insert : σ → Interval → Option σ)
    (nprocs : Nat) (log : Proc → List Interval) (hlog : ∀ i, Numbered i (log i)) (hwf : ∀ i, ∀ iv ∈ log i, iv.Wf)
    (v : VectorTime) (s : σ) :
    incorporate time insert s (intervalRequest nprocs log v) =
      (records nprocs log v).foldlM (incorporateOne time insert) s := by
  rw [intervalRequest_eq nprocs log hlog v]
  refine incorporate_encode time insert s _ fun iv hiv => ?_
  obtain ⟨i, -, hiv⟩ := List.mem_flatMap.mp hiv
  exact hwf i iv (List.mem_of_mem_drop hiv)

/-- Two intervals of process 1 are sent, of which the receiver has the first by now. -/
theorem incorporate_intervalRequest_second :
    let iv (t : Nat) (rs : List (Nat × Nat)) : Interval := ⟨1, fun k => if k = 1 then t else 0, rs⟩
    let log : Proc → List Interval := fun i => if i = 1 then [iv 1 [(7, 7)], iv 2 [(3, 5), (0, 1)]] else []
    let time : VectorTime := fun k => if k = 1 then 1 else 0
    let take (got : List Interval) (iv : Interval) : Option (List Interval) := some (got ++ [iv])
    incorporate (fun _ => time) take [] (intervalRequest 2 log fun _ => 0) =
      some [iv 2 [(3, 5), (0, 0), (1, 1)]] := by
  intro iv log time take
  have hcases : ∀ i, ∀ r ∈ log i, i = 1 ∧ (r = iv 1 [(7, 7)] ∨ r = iv 2 [(3, 5), (0, 1)]) := by
    intro i r hr
    simp only [log] at hr
    split at hr
    · next hi => exact ⟨hi, by simpa using hr⟩
    · cases hr
  rw [incorporate_intervalRequest _ take 2 log (fun i k r hr => ?_) (fun i r hr => ?_)]
  · rfl
  · obtain ⟨rfl, -⟩ := hcases i r (List.mem_of_getElem? hr)
    match k, hr with
    | 0, hr => cases hr; exact ⟨rfl, rfl⟩
    | 1, hr => cases hr; exact ⟨rfl, rfl⟩
  · obtain ⟨rfl, rfl | rfl⟩ := hcases i r hr
    · exact ⟨by decide, by decide, by decide⟩
    · exact ⟨by decide, by decide, by decide⟩

end Tmk
