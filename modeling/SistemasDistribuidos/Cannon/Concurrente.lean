import SistemasDistribuidos.Lib.Runs
import SistemasDistribuidos.Cannon.Greeter
import Mathlib.Data.Fintype.Card

/-!
# The best shot with concurrent handlers

The handlers of `Greeter` run in a pool of worker threads and share its two attributes
without a lock.  Here each read and each write of an attribute is a step of its own,
and the handlers of the shots `ι` and of the `mejorDisparo` calls `κ` interleave in any
way the pool allows.

`disparaCannon` checks first and writes later, one attribute after the other, so a run
can lose the best shot or tell a pair that no shot had (`mejor_perdido`).  It does
neither as long as nobody looks between the two writes of a shot and each shot writes
while its check still holds:

    every step Ordenado  →  Correcto in every state of the run   (correcto_si_ordenado)
-/

namespace Cannon

/-! ## Algorithm -/

def max_workers : Nat := 10

/-- A `disparaCannon` handler, by the access it makes next. -/
inductive PcDisparo where
  | leeNombre
  | leeDistancia
  | escribeNombre
  | escribeDistancia
  | fin
  deriving DecidableEq, Repr

/-- A `mejorDisparo` handler, by the access it makes next and with what it has read;
`despues` records whether some shot was over when it returned. -/
inductive PcMejor (D : Type*) where
  | leeNombre
  | leeDistancia (nombre : String)
  | fin (nombre : String) (distancia : D) (despues : Bool)
  deriving DecidableEq, Repr

def PcDisparo.activo : PcDisparo → Bool
  | .leeNombre | .fin => false
  | _ => true

def PcMejor.activo {D : Type*} : PcMejor D → Bool
  | .leeDistancia _ => true
  | _ => false

structure Estado (ι κ D : Type*) where
  greeter : Greeter D
  disparo : ι → PcDisparo
  mejor : κ → PcMejor D

/-- The handler that takes the next step. -/
inductive Turno (ι κ : Type*) where
  | disparaCannon (i : ι)
  | mejorDisparo (k : κ)

variable {ι κ D : Type*}

/-- Workers that are in the middle of a handler. -/
def Estado.activos [Fintype ι] [Fintype κ] (s : Estado ι κ D) : Nat :=
  (Finset.univ.filter fun i => (s.disparo i).activo).card +
    (Finset.univ.filter fun k => (s.mejor k).activo).card

def Estado.conDisparo [DecidableEq ι] (s : Estado ι κ D) (i : ι) (pc : PcDisparo) : Estado ι κ D :=
  { s with disparo := Function.update s.disparo i pc }

def Estado.conMejor [DecidableEq κ] (s : Estado ι κ D) (k : κ) (pc : PcMejor D) : Estado ι κ D :=
  { s with mejor := Function.update s.mejor k pc }

section Handlers

variable [Fintype ι] [DecidableEq ι] [Fintype κ] [DecidableEq κ]
variable [AddGroupWithOne D] [LinearOrder D]
variable (alcance : Int → D → D) (req : ι → DisparaCannonArgs D)

def pasoDispara (s : Estado ι κ D) (i : ι) : Option (Estado ι κ D) :=
  match s.disparo i with
  | .leeNombre =>
    if s.activos < max_workers then
      if s.greeter.nombreMejorDisparo = "None" then some (s.conDisparo i .escribeNombre)
      else some (s.conDisparo i .leeDistancia)
    else none
  | .leeDistancia =>
    if desvio alcance (req i) < s.greeter.distanciaMejorDisparo then
      some (s.conDisparo i .escribeNombre)
    else some (s.conDisparo i .fin)
  | .escribeNombre =>
    some { s.conDisparo i .escribeDistancia with
      greeter.nombreMejorDisparo := (req i).nombreUsuario }
  | .escribeDistancia =>
    some { s.conDisparo i .fin with greeter.distanciaMejorDisparo := desvio alcance (req i) }
  | .fin => none

def pasoMejor (s : Estado ι κ D) (k : κ) : Option (Estado ι κ D) :=
  match s.mejor k with
  | .leeNombre =>
    if s.activos < max_workers then
      some (s.conMejor k (.leeDistancia s.greeter.nombreMejorDisparo))
    else none
  | .leeDistancia nombre =>
    some (s.conMejor k
      (.fin nombre s.greeter.distanciaMejorDisparo (decide (∃ i, s.disparo i = .fin))))
  | .fin .. => none

def paso (s : Estado ι κ D) : Turno ι κ → Option (Estado ι κ D)
  | .disparaCannon i => pasoDispara alcance req s i
  | .mejorDisparo k => pasoMejor s k

end Handlers

variable [AddGroupWithOne D] [LinearOrder D]
variable (alcance : Int → D → D) (req : ι → DisparaCannonArgs D)

def estado0 : Estado ι κ D :=
  { greeter := greeter0, disparo := fun _ => .leeNombre, mejor := fun _ => .leeNombre }

/-- Every pair returned once some shot is over was that of a shot, and when all handlers
are over the attributes are those of a best shot. -/
def Correcto (s : Estado ι κ D) : Prop :=
  (∀ k nombre distancia, s.mejor k = .fin nombre distancia true →
    ∃ i, nombre = (req i).nombreUsuario ∧ distancia = desvio alcance (req i)) ∧
  ((∀ i, s.disparo i = .fin) → (∀ k, ∃ nombre distancia b, s.mejor k = .fin nombre distancia b) →
    (∀ i, s.greeter.distanciaMejorDisparo ≤ desvio alcance (req i)) ∧
    (Nonempty ι → ∃ i, s.greeter.nombreMejorDisparo = (req i).nombreUsuario ∧
      s.greeter.distanciaMejorDisparo = desvio alcance (req i)))

/-- Nobody is between writing the name and writing the distance. -/
def Estado.SinEscribir (s : Estado ι κ D) : Prop := ∀ i, s.disparo i ≠ .escribeDistancia

/-- The step does not race: the distance of a check and the name of an answer are read with
no shot half written, and a shot is written with no other half written or half read, while
what it was checked against still holds. -/
def Ordenado (s : Estado ι κ D) : Turno ι κ → Prop
  | .disparaCannon i =>
    match s.disparo i with
    | .leeDistancia => s.SinEscribir
    | .escribeNombre =>
      s.SinEscribir ∧ (∀ k, ¬ (s.mejor k).activo) ∧
      (s.greeter.nombreMejorDisparo = "None" ∨
        desvio alcance (req i) < s.greeter.distanciaMejorDisparo)
    | _ => True
  | .mejorDisparo k =>
    match s.mejor k with
    | .leeNombre => s.SinEscribir
    | _ => True

instance [Fintype ι] (s : Estado ι κ D) : Decidable s.SinEscribir :=
  inferInstanceAs (Decidable (∀ i, s.disparo i ≠ .escribeDistancia))

instance [Fintype ι] [Fintype κ] (s : Estado ι κ D) : ∀ a, Decidable (Ordenado alcance req s a)
  | .disparaCannon i =>
    match h : s.disparo i with
    | .leeDistancia => decidable_of_iff s.SinEscribir (by simp [Ordenado, h])
    | .escribeNombre =>
      decidable_of_iff (s.SinEscribir ∧ (∀ k, ¬ (s.mejor k).activo) ∧
        (s.greeter.nombreMejorDisparo = "None" ∨
          desvio alcance (req i) < s.greeter.distanciaMejorDisparo)) (by simp [Ordenado, h])
    | .leeNombre | .escribeDistancia | .fin => .isTrue (by simp [Ordenado, h])
  | .mejorDisparo k =>
    match h : s.mejor k with
    | .leeNombre => decidable_of_iff s.SinEscribir (by simp [Ordenado, h])
    | .leeDistancia _ | .fin .. => .isTrue (by simp [Ordenado, h])

/-! ## Lemmas -/

/-- With no shot half written, the attributes are the initial ones and nobody has got past
them, or they are those of a shot no worse than any that is over. -/
def Limpio (s : Estado ι κ D) : Prop :=
  (s.greeter = greeter0 ∧ ∀ i, s.disparo i ≠ .fin ∧ s.disparo i ≠ .leeDistancia) ∨
  ∃ i, s.greeter = marca alcance (req i) ∧
    ∀ j, s.disparo j = .fin → s.greeter.distanciaMejorDisparo ≤ desvio alcance (req j)

structure Coherente (s : Estado ι κ D) : Prop where
  limpio : s.SinEscribir → Limpio alcance req s
  escribe : ∀ i, s.disparo i = .escribeDistancia →
    s.greeter.nombreMejorDisparo = (req i).nombreUsuario ∧
    (∀ j, s.disparo j = .fin → desvio alcance (req i) ≤ desvio alcance (req j)) ∧
    ∀ j, s.disparo j = .escribeDistancia → j = i
  leyendo : ∀ k nombre, s.mejor k = .leeDistancia nombre →
    nombre = s.greeter.nombreMejorDisparo ∧ s.SinEscribir
  devuelto : ∀ k nombre distancia, s.mejor k = .fin nombre distancia true →
    ∃ i, nombre = (req i).nombreUsuario ∧ distancia = desvio alcance (req i)

theorem coherente_estado0 : Coherente alcance req (estado0 : Estado ι κ D) := by
  refine ⟨fun _ => .inl ⟨rfl, ?_⟩, ?_, ?_, ?_⟩ <;> simp [estado0]

/-- A check: the handler of shot `i` moves on and leaves the attributes alone. -/
theorem Coherente.comprueba [DecidableEq ι] (s : Estado ι κ D) (i : ι) (pc : PcDisparo)
    (hs : Coherente alcance req s) (hi : s.disparo i ≠ .escribeDistancia)
    (hpc : pc ≠ .escribeDistancia)
    (hlimpio : s.SinEscribir → Limpio alcance req (s.conDisparo i pc))
    (hfin : pc = .fin → s.SinEscribir) : Coherente alcance req (s.conDisparo i pc) := by
  have hsin : (s.conDisparo i pc).SinEscribir ↔ s.SinEscribir := by
    refine forall_congr' fun j => ?_
    by_cases hj : j = i
    · simp [Estado.conDisparo, hj, hi, hpc]
    · simp [Estado.conDisparo, hj]
  refine ⟨fun h => hlimpio (hsin.mp h), ?_, fun k nombre hk => ?_, hs.devuelto⟩
  · intro j hj
    have hne : j ≠ i := by
      rintro rfl
      exact hpc (by simpa [Estado.conDisparo] using hj)
    have hj' : s.disparo j = .escribeDistancia := by simpa [Estado.conDisparo, hne] using hj
    obtain ⟨h1, h2, h3⟩ := hs.escribe j hj'
    refine ⟨h1, fun q hq => ?_, fun q hq => ?_⟩
    · by_cases hqi : q = i
      · have : pc = .fin := by simpa [Estado.conDisparo, hqi] using hq
        exact absurd hj' (hfin this j)
      · exact h2 q (by simpa [Estado.conDisparo, hqi] using hq)
    · by_cases hqi : q = i
      · exact absurd (by simpa [Estado.conDisparo, hqi] using hq) hpc
      · exact h3 q (by simpa [Estado.conDisparo, hqi] using hq)
  · obtain ⟨h1, h2⟩ := hs.leyendo k nombre hk
    exact ⟨h1, hsin.mpr h2⟩

theorem Coherente.leeNombre [DecidableEq ι] (s : Estado ι κ D) (i : ι)
    (hs : Coherente alcance req s) (h : s.disparo i = .leeNombre) (pc : PcDisparo)
    (hpc : pc = .escribeNombre ∨
      (pc = .leeDistancia ∧ s.greeter.nombreMejorDisparo ≠ "None")) :
    Coherente alcance req (s.conDisparo i pc) := by
  have hfin : pc ≠ .fin ∧ pc ≠ .escribeDistancia := by
    rcases hpc with rfl | ⟨rfl, -⟩ <;> simp
  refine hs.comprueba alcance req s i pc (by simp [h]) hfin.2 (fun hsin => ?_)
    (fun h => absurd h hfin.1)
  rcases hs.limpio hsin with ⟨h0, hno⟩ | ⟨q, hq, hmin⟩
  · -- the name was still "None", so the check led straight to the writes
    obtain rfl : pc = .escribeNombre := by
      rcases hpc with h | ⟨-, hne⟩
      · exact h
      · rw [h0] at hne
        exact absurd rfl hne
    refine .inl ⟨h0, fun j => ?_⟩
    by_cases hj : j = i
    · simp [Estado.conDisparo, hj]
    · simpa [Estado.conDisparo, hj] using hno j
  · refine .inr ⟨q, hq, fun j hj => hmin j ?_⟩
    by_cases hji : j = i
    · exact absurd (by simpa [Estado.conDisparo, hji] using hj) hfin.1
    · simpa [Estado.conDisparo, hji] using hj

theorem Coherente.leeDistancia [DecidableEq ι] (s : Estado ι κ D) (i : ι)
    (hs : Coherente alcance req s) (h : s.disparo i = .leeDistancia) (hsin : s.SinEscribir)
    (pc : PcDisparo) (hpc : pc = .escribeNombre ∨
      (pc = .fin ∧ s.greeter.distanciaMejorDisparo ≤ desvio alcance (req i))) :
    Coherente alcance req (s.conDisparo i pc) := by
  refine hs.comprueba alcance req s i pc (by simp [h]) ?_ (fun _ => ?_) (fun _ => hsin)
  · rcases hpc with rfl | ⟨rfl, -⟩ <;> simp
  rcases hs.limpio hsin with ⟨-, hno⟩ | ⟨q, hq, hmin⟩
  · exact absurd h (hno i).2
  · refine .inr ⟨q, hq, fun j hj => ?_⟩
    by_cases hji : j = i
    · have hj' : pc = .fin := by simpa [Estado.conDisparo, hji] using hj
      rcases hpc with rfl | ⟨-, hle⟩
      · cases hj'
      · rw [hji]
        exact hle
    · exact hmin j (by simpa [Estado.conDisparo, hji] using hj)

theorem Coherente.escribeNombre [DecidableEq ι] (s : Estado ι κ D) (i : ι)
    (hnames : ∀ j, (req j).nombreUsuario ≠ "None") (hs : Coherente alcance req s)
    (hsin : s.SinEscribir) (hnadie : ∀ k, ¬ (s.mejor k).activo)
    (hcheck : s.greeter.nombreMejorDisparo = "None" ∨
      desvio alcance (req i) < s.greeter.distanciaMejorDisparo) :
    Coherente alcance req { s.conDisparo i .escribeDistancia with
      greeter.nombreMejorDisparo := (req i).nombreUsuario } := by
  have hbest : ∀ j, s.disparo j = .fin → desvio alcance (req i) ≤ desvio alcance (req j) := by
    intro j hj
    rcases hs.limpio hsin with ⟨-, hno⟩ | ⟨q, hq, hmin⟩
    · exact absurd hj (hno j).1
    · rcases hcheck with h | h
      · rw [hq] at h
        exact absurd h (hnames q)
      · exact h.le.trans (hmin j hj)
  have hother : ∀ j pc, pc ≠ .escribeDistancia →
      Function.update s.disparo i .escribeDistancia j = pc → s.disparo j = pc := by
    intro j pc hpc hj
    by_cases hji : j = i
    · subst hji
      exact absurd (by simpa using hj.symm) hpc
    · simpa [hji] using hj
  refine ⟨fun h => absurd ?_ (h i), fun j hj => ?_, fun k nombre hk => absurd ?_ (hnadie k),
    hs.devuelto⟩
  · simp [Estado.conDisparo]
  · have hsolo : ∀ q, (s.conDisparo i .escribeDistancia).disparo q = .escribeDistancia → q = i := by
      intro q hq
      by_contra hqi
      exact hsin q (by simpa [Estado.conDisparo, hqi] using hq)
    obtain rfl := hsolo j hj
    exact ⟨rfl, fun q hq => hbest q (hother q .fin (by simp) hq), hsolo⟩
  · rw [show s.mejor k = _ from hk]
    rfl

theorem Coherente.escribeDistancia [DecidableEq ι] (s : Estado ι κ D) (i : ι)
    (hs : Coherente alcance req s) (h : s.disparo i = .escribeDistancia) :
    Coherente alcance req { s.conDisparo i .fin with
      greeter.distanciaMejorDisparo := desvio alcance (req i) } := by
  obtain ⟨hname, hbest, hsolo⟩ := hs.escribe i h
  have hmarca : ({ s.greeter with distanciaMejorDisparo := desvio alcance (req i) } : Greeter D)
      = marca alcance (req i) := by
    rw [marca, ← hname]
  refine ⟨fun _ => .inr ⟨i, hmarca, fun j hj => ?_⟩, fun j hj => ?_, fun k nombre hk => ?_,
    hs.devuelto⟩
  · by_cases hji : j = i
    · rw [hji]
    · exact hbest j (by simpa [Estado.conDisparo, hji] using hj)
  · by_cases hji : j = i
    · simp [Estado.conDisparo, hji] at hj
    · exact absurd (hsolo j (by simpa [Estado.conDisparo, hji] using hj)) hji
  · exact absurd h ((hs.leyendo k nombre hk).2 i)

/-- A step of `mejorDisparo` moves one handler and nothing else. -/
theorem Coherente.mejor [DecidableEq κ] (s : Estado ι κ D) (k : κ) (pc : PcMejor D)
    (hs : Coherente alcance req s)
    (hlee : ∀ nombre, pc = .leeDistancia nombre →
      nombre = s.greeter.nombreMejorDisparo ∧ s.SinEscribir)
    (hfin : ∀ nombre distancia, pc = .fin nombre distancia true →
      ∃ i, nombre = (req i).nombreUsuario ∧ distancia = desvio alcance (req i)) :
    Coherente alcance req (s.conMejor k pc) := by
  refine ⟨hs.limpio, hs.escribe, fun q nombre hq => ?_, fun q nombre distancia hq => ?_⟩
  · by_cases hqk : q = k
    · exact hlee nombre (by simpa [Estado.conMejor, hqk] using hq)
    · exact hs.leyendo q nombre (by simpa [Estado.conMejor, hqk] using hq)
  · by_cases hqk : q = k
    · exact hfin nombre distancia (by simpa [Estado.conMejor, hqk] using hq)
    · exact hs.devuelto q nombre distancia (by simpa [Estado.conMejor, hqk] using hq)

section Runs

variable [Fintype ι] [DecidableEq ι] [Fintype κ] [DecidableEq κ]

theorem Coherente.paso (s t : Estado ι κ D) (a : Turno ι κ)
    (hnames : ∀ i, (req i).nombreUsuario ≠ "None") (hs : Coherente alcance req s)
    (ha : Ordenado alcance req s a) (h : paso alcance req s a = some t) :
    Coherente alcance req t := by
  cases a with
  | disparaCannon i =>
    simp only [Cannon.paso, pasoDispara] at h
    simp only [Ordenado] at ha
    split at h
    next hpc =>
      split at h
      next =>
        split at h <;> cases h
        next => exact hs.leeNombre alcance req s i hpc _ (.inl rfl)
        next hne => exact hs.leeNombre alcance req s i hpc _ (.inr ⟨rfl, hne⟩)
      next => cases h
    next hpc =>
      rw [hpc] at ha
      split at h <;> cases h
      next => exact hs.leeDistancia alcance req s i hpc ha _ (.inl rfl)
      next hge => exact hs.leeDistancia alcance req s i hpc ha _ (.inr ⟨rfl, not_lt.mp hge⟩)
    next hpc =>
      rw [hpc] at ha
      cases h
      exact hs.escribeNombre alcance req s i hnames ha.1 ha.2.1 ha.2.2
    next hpc =>
      cases h
      exact hs.escribeDistancia alcance req s i hpc
    next => cases h
  | mejorDisparo k =>
    simp only [Cannon.paso, pasoMejor] at h
    simp only [Ordenado] at ha
    split at h
    next hpc =>
      rw [hpc] at ha
      split at h <;> cases h
      refine hs.mejor alcance req s k _ (fun nombre hn => ?_) (fun _ _ hn => by cases hn)
      cases hn
      exact ⟨rfl, ha⟩
    next nombre hpc =>
      cases h
      obtain ⟨hn, hsin⟩ := hs.leyendo k nombre hpc
      refine hs.mejor alcance req s k _ (fun _ hn => by cases hn) (fun _ _ he => ?_)
      simp only [PcMejor.fin.injEq, decide_eq_true_eq] at he
      obtain ⟨rfl, rfl, j, hj⟩ := he
      -- a shot is over, so what was read is no longer the initial value
      rcases hs.limpio hsin with ⟨-, hno⟩ | ⟨i, hi, -⟩
      · exact absurd hj (hno j).1
      · exact ⟨i, by rw [hn, hi]; rfl, by rw [hi]; rfl⟩
    next => cases h

omit [Fintype ι] [DecidableEq ι] [Fintype κ] [DecidableEq κ] in
theorem Coherente.correcto (s : Estado ι κ D) (hs : Coherente alcance req s) :
    Correcto alcance req s := by
  refine ⟨hs.devuelto, fun hfin _ => ?_⟩
  have hsin : s.SinEscribir := fun i h => by rw [hfin i] at h; cases h
  rcases hs.limpio hsin with ⟨-, hno⟩ | ⟨i, hi, hmin⟩
  · exact ⟨fun j => absurd (hfin j) (hno j).1, fun ⟨j⟩ => absurd (hfin j) (hno j).1⟩
  · exact ⟨fun j => hmin j (hfin j), fun _ => ⟨i, by rw [hi]; rfl, by rw [hi]; rfl⟩⟩

/-! ## Top theorems -/

/-- **No race, no loss.**  For users not called `"None"`: a run whose steps are all
`Ordenado` tells only pairs of actual shots, and ends with a best shot. -/
theorem correcto_si_ordenado (hnames : ∀ i, (req i).nombreUsuario ≠ "None")
    (as : List (Turno ι κ)) (t : Estado ι κ D)
    (hrun : Runs.run (paso alcance req) estado0 as = some t)
    (hord : Runs.Meets (paso alcance req) (Ordenado alcance req) estado0 as) :
    Correcto alcance req t := by
  refine Coherente.correcto alcance req t
    (hord.invariant hrun (Coherente alcance req) (coherente_estado0 alcance req) ?_)
  intro s a u hs ha hu
  exact hs.paso alcance req s u a hnames ha hu

end Runs

/-- Ana lands 1 away and Beto 2 away, each in its own handler, and a third one asks. -/
def anaYBeto : Fin 2 → DisparaCannonArgs Int
  | 0 => ⟨"Ana", 45, 129⟩
  | 1 => ⟨"Beto", 45, 130⟩

/-- Beto finds no shot, Ana shoots better meanwhile, and Beto's writes bury hers. -/
theorem mejor_perdido : ¬ ∀ (req : Fin 2 → DisparaCannonArgs Int)
    (as : List (Turno (Fin 2) (Fin 0))) (t : Estado (Fin 2) (Fin 0) Int),
    (∀ i, (req i).nombreUsuario ≠ "None") →
    Runs.run (paso (fun _ v => v) req) estado0 as = some t →
    Correcto (fun _ v => v) req t := by
  intro h
  have hrun : (Runs.run (paso (fun _ v => v) anaYBeto) (estado0 : Estado (Fin 2) (Fin 0) Int)
      [.disparaCannon 0, .disparaCannon 1, .disparaCannon 0, .disparaCannon 0, .disparaCannon 1,
        .disparaCannon 1]).any (fun t => (∀ i, t.disparo i = .fin) ∧
          t.greeter.distanciaMejorDisparo = 2) = true := by decide +kernel
  obtain ⟨t, hrun, ht⟩ := (Option.any_eq_true _ _).mp hrun
  obtain ⟨hfin, hdist⟩ := of_decide_eq_true ht
  have := ((h anaYBeto _ t (by decide) hrun).2 hfin (fun k => k.elim0)).1 0
  rw [hdist] at this
  exact absurd this (by decide)

/-- Beto shoots, then Ana, and somebody asks before and after her shot is written: both
answers are of a shot. -/
theorem correcto_si_ordenado_dos : ∃ t : Estado (Fin 2) (Fin 2) Int,
    t.mejor 0 = .fin "Beto" 2 true ∧ t.mejor 1 = .fin "Ana" 1 true ∧
    Correcto (fun _ v => v) anaYBeto t := by
  have hrun : (Runs.run (paso (fun _ v => v) anaYBeto) (estado0 : Estado (Fin 2) (Fin 2) Int)
      [.disparaCannon 1, .disparaCannon 1, .disparaCannon 1, .disparaCannon 0, .mejorDisparo 0,
        .disparaCannon 0, .mejorDisparo 0, .disparaCannon 0, .disparaCannon 0, .mejorDisparo 1,
        .mejorDisparo 1]).any (fun t => t.mejor 0 = .fin "Beto" 2 true ∧
          t.mejor 1 = .fin "Ana" 1 true) = true := by decide +kernel
  obtain ⟨t, hrun, ht⟩ := (Option.any_eq_true _ _).mp hrun
  obtain ⟨h0, h1⟩ := of_decide_eq_true ht
  exact ⟨t, h0, h1, correcto_si_ordenado _ anaYBeto (by decide) _ t hrun (by decide +kernel)⟩

end Cannon
