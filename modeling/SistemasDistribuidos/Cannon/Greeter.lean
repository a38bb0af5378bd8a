import Mathlib.Data.List.MinMax
import Mathlib.Algebra.Order.Group.Unbundled.Abs
import Mathlib.Data.Int.Cast.Defs
import Mathlib.Algebra.Order.Group.Int
import Mathlib.Algebra.Ring.Int.Defs

/-!
# The best shot, one call after another

`Greeter` of `Practica03/CodigosFinales/practica3Server.py` keeps the name and the
distance of the best shot in two attributes, and `"None"` in the first one stands for
"no shot yet".  A user may be called `"None"`, so the running minimum can forget its
best shot:

    mejorDisparo tells the first best shot  ↔  it is not called "None", or ...   (ley_iff)

Distances live in any linear order with subtraction; where a shot lands is a parameter
(`alcance`, the formula over `math.radians` and `math.sin`).
-/

namespace Cannon

/-! ## Algorithm -/

structure DisparaCannonArgs (D : Type*) where
  nombreUsuario : String
  anguloRadianes : Int
  velocidadMtrsSeg : D
  deriving DecidableEq, Repr

/-- The two attributes of the service, which are also the fields of `mejorDisparoReturn`. -/
structure Greeter (D : Type*) where
  nombreMejorDisparo : String
  distanciaMejorDisparo : D
  deriving DecidableEq, Repr

variable {D : Type*} [AddGroupWithOne D] [LinearOrder D]

def greeter0 : Greeter D := { nombreMejorDisparo := "None", distanciaMejorDisparo := 0 }

def dimeCentroDiana : D := 128

variable (alcance : Int → D → D)

/-- `distanciaEntreCentroYDiana`, negative when the shot falls short. -/
def distanciaEntreCentroYDiana (r : DisparaCannonArgs D) : D :=
  alcance r.anguloRadianes r.velocidadMtrsSeg - dimeCentroDiana

/-- How far from the centre the shot lands, on either side. -/
def desvio (r : DisparaCannonArgs D) : D := |distanciaEntreCentroYDiana alcance r|

def disparaCannon (g : Greeter D) (r : DisparaCannonArgs D) : Greeter D × D :=
  let g' :=
    if g.nombreMejorDisparo = "None" ∨ desvio alcance r < g.distanciaMejorDisparo then
      { nombreMejorDisparo := r.nombreUsuario, distanciaMejorDisparo := desvio alcance r }
    else g
  (g', distanciaEntreCentroYDiana alcance r)

/-- The service after the calls `rs`, in order; `mejorDisparo` answers with its two attributes. -/
def disparos (rs : List (DisparaCannonArgs D)) : Greeter D :=
  rs.foldl (fun g r => (disparaCannon alcance g r).1) greeter0

/-- What the service keeps of a shot it takes for the best. -/
def marca (r : DisparaCannonArgs D) : Greeter D :=
  { nombreMejorDisparo := r.nombreUsuario, distanciaMejorDisparo := desvio alcance r }

/-- `mejorDisparo` tells the first shot that came closest, and the initial value exactly
when there was none. -/
def Ley (rs : List (DisparaCannonArgs D)) : Prop :=
  (∀ f ∈ rs.argmin (desvio alcance), disparos alcance rs = marca alcance f) ∧
  (disparos alcance rs = greeter0 ↔ rs = [])

/-! ## Lemmas -/

theorem disparos_concat (rs : List (DisparaCannonArgs D)) (r : DisparaCannonArgs D) :
    disparos alcance (rs ++ [r])
      = if (disparos alcance rs).nombreMejorDisparo = "None" ∨
          desvio alcance r < (disparos alcance rs).distanciaMejorDisparo then marca alcance r
        else disparos alcance rs := by
  rw [disparos, List.foldl_append]
  rfl

/-- After the first shot the attributes are those of some shot. -/
theorem disparos_mem (rs : List (DisparaCannonArgs D)) (h : rs ≠ []) :
    ∃ r ∈ rs, disparos alcance rs = marca alcance r := by
  induction rs using List.reverseRecOn with
  | nil => exact absurd rfl h
  | append_singleton rs r ih =>
    rw [disparos_concat]
    split
    next => exact ⟨r, by simp, rfl⟩
    next hno =>
      have hne : rs ≠ [] := by
        rintro rfl
        exact hno (.inl rfl)
      obtain ⟨q, hq, he⟩ := ih hne
      exact ⟨q, by simp [hq], he⟩

/-- The service keeps a first best shot whose name is not `"None"`. -/
theorem disparos_argmin (rs : List (DisparaCannonArgs D)) (f : DisparaCannonArgs D)
    (hf : f ∈ rs.argmin (desvio alcance)) (hname : f.nombreUsuario ≠ "None") :
    disparos alcance rs = marca alcance f := by
  induction rs using List.reverseRecOn with
  | nil => simp at hf
  | append_singleton rs r ih =>
    rw [disparos_concat]
    rw [List.argmin_concat] at hf
    cases hc : rs.argmin (desvio alcance) with
    | none =>
      rw [hc] at hf
      obtain rfl : rs = [] := List.argmin_eq_none.mp hc
      obtain rfl : r = f := by simpa using hf
      exact if_pos (.inl rfl)
    | some c =>
      simp only [hc] at hf
      split at hf
      next hlt =>
        obtain rfl : r = f := by simpa using hf
        obtain ⟨q, hq, he⟩ := disparos_mem alcance rs (List.ne_nil_of_mem (List.argmin_mem hc))
        refine if_pos (.inr ?_)
        rw [he]
        exact lt_of_lt_of_le hlt (List.le_of_mem_argmin hq hc)
      next hlt =>
        obtain rfl : c = f := by simpa using hf
        rw [ih hc]
        exact if_neg (not_or.mpr ⟨hname, hlt⟩)

theorem le_disparos (rs : List (DisparaCannonArgs D)) (m : D)
    (hm : ∀ r ∈ rs, m ≤ desvio alcance r)
    (h : (disparos alcance rs).nombreMejorDisparo ≠ "None") :
    m ≤ (disparos alcance rs).distanciaMejorDisparo := by
  have hne : rs ≠ [] := by
    rintro rfl
    exact h rfl
  obtain ⟨r, hr, he⟩ := disparos_mem alcance rs hne
  rw [he]
  exact hm r hr

/-- A shot at the least distance `m` and not called `"None"` stays: nothing replaces it but
another one like it. -/
theorem disparos_retiene (rs : List (DisparaCannonArgs D)) (m : D)
    (hm : ∀ r ∈ rs, m ≤ desvio alcance r)
    (h : ∃ r ∈ rs, desvio alcance r = m ∧ r.nombreUsuario ≠ "None") :
    (disparos alcance rs).nombreMejorDisparo ≠ "None" ∧
      (disparos alcance rs).distanciaMejorDisparo = m := by
  induction rs using List.reverseRecOn with
  | nil => simp at h
  | append_singleton rs r ih =>
    have hm' : ∀ q ∈ rs, m ≤ desvio alcance q := fun q hq => hm q (by simp [hq])
    obtain ⟨q, hq, hqm, hname⟩ := h
    rw [disparos_concat]
    rcases List.mem_append.mp hq with hq | hq
    · obtain ⟨h1, h2⟩ := ih hm' ⟨q, hq, hqm, hname⟩
      have hno : ¬ desvio alcance r < m := not_lt.mpr (hm r (by simp))
      rw [if_neg (not_or.mpr ⟨h1, h2 ▸ hno⟩)]
      exact ⟨h1, h2⟩
    · obtain rfl : q = r := by simpa using hq
      split
      next => exact ⟨hname, hqm⟩
      next hno =>
        obtain ⟨h1, h2⟩ := not_or.mp hno
        refine ⟨h1, le_antisymm (hqm ▸ not_lt.mp h2) (le_disparos alcance rs m hm' h1)⟩

/-- When the attributes end as `("None", m)`, with `m` the least distance: the last shot put
them there, and no shot at distance `m` with another name came before. -/
theorem disparos_eq_none_iff (rs : List (DisparaCannonArgs D)) (x : DisparaCannonArgs D) (m : D)
    (hm : ∀ r ∈ rs, m ≤ desvio alcance r) :
    disparos alcance (rs ++ [x]) = { nombreMejorDisparo := "None", distanciaMejorDisparo := m } ↔
      x.nombreUsuario = "None" ∧ desvio alcance x = m ∧
        ∀ r ∈ rs, desvio alcance r = m → r.nombreUsuario = "None" := by
  rw [disparos_concat]
  split
  next hyes =>
    simp only [marca, Greeter.mk.injEq]
    refine ⟨fun ⟨h1, h2⟩ => ⟨h1, h2, fun r hr hrm => ?_⟩, fun ⟨h1, h2, _⟩ => ⟨h1, h2⟩⟩
    by_contra hname
    obtain ⟨h3, h4⟩ := disparos_retiene alcance rs m hm ⟨r, hr, hrm, hname⟩
    rcases hyes with hyes | hyes
    · exact h3 hyes
    · rw [h2, h4] at hyes
      exact lt_irrefl m hyes
  next hno =>
    obtain ⟨h1, h2⟩ := not_or.mp hno
    constructor
    · intro h
      exact absurd (by rw [h]) h1
    · rintro ⟨-, hxm, hall⟩
      have hne : rs ≠ [] := by
        rintro rfl
        exact h1 rfl
      obtain ⟨r, hr, he⟩ := disparos_mem alcance rs hne
      have hrm : desvio alcance r = m := by
        refine le_antisymm ?_ (hm r hr)
        rw [he, hxm] at h2
        exact not_lt.mp h2
      refine absurd ?_ h1
      rw [he]
      exact hall r hr hrm

/-! ## Top theorems -/

/-- **When the best shot is told right.**  No shot yet; or the first best shot is not called
`"None"`; or all the best shots are, the last shot is one of them, and it did not hit the
centre. -/
theorem ley_iff (rs : List (DisparaCannonArgs D)) :
    Ley alcance rs ↔ rs = [] ∨ ∃ f ∈ rs.argmin (desvio alcance),
      f.nombreUsuario ≠ "None" ∨
      ((∀ r ∈ rs, desvio alcance r = desvio alcance f → r.nombreUsuario = "None") ∧
        (∃ x ∈ rs.getLast?, desvio alcance x = desvio alcance f) ∧ desvio alcance f ≠ 0) := by
  rcases List.eq_nil_or_concat' rs with rfl | ⟨l, x, rfl⟩
  · simp [Ley, disparos]
  obtain ⟨f, hf⟩ : ∃ f, (l ++ [x]).argmin (desvio alcance) = some f := by
    rw [← Option.ne_none_iff_exists', ne_eq, List.argmin_eq_none]
    simp
  have hmin : ∀ r ∈ l, desvio alcance f ≤ desvio alcance r :=
    fun r hr => List.le_of_mem_argmin (List.mem_append_left _ hr) hf
  have hne : l ++ [x] ≠ [] := by simp
  simp only [Ley, hf, Option.mem_some_iff, forall_eq', exists_eq_left', hne, iff_false, false_or,
    List.getLast?_concat]
  by_cases hname : f.nombreUsuario = "None"
  · -- the answer should be `("None", m)`, and must not look like the initial one
    have hlaw := disparos_eq_none_iff alcance l x _ hmin
    have hmarca : marca alcance f
        = { nombreMejorDisparo := "None", distanciaMejorDisparo := desvio alcance f } := by
      rw [marca, hname]
    simp only [hmarca, hname, ne_eq, not_true_eq_false, false_or]
    constructor
    · rintro ⟨h, h0⟩
      obtain ⟨h1, h2, h3⟩ := hlaw.mp h
      refine ⟨?_, h2, ?_⟩
      · intro r hr hrm
        rcases List.mem_append.mp hr with hr | hr
        · exact h3 r hr hrm
        · obtain rfl : r = x := by simpa using hr
          exact h1
      · intro h'
        rw [h, h'] at h0
        exact h0 rfl
    · rintro ⟨hall, hx, h0⟩
      have h := hlaw.mpr ⟨hall x (by simp) hx, hx, fun r hr => hall r (by simp [hr])⟩
      refine ⟨h, fun h' => h0 ?_⟩
      rw [h'] at h
      exact (Greeter.mk.inj h).2.symm
  · have h := disparos_argmin alcance _ f hf hname
    simp only [ne_eq, hname, not_false_eq_true, true_or, iff_true]
    refine ⟨h, fun h' => hname ?_⟩
    rw [h] at h'
    exact (Greeter.mk.inj h').1

/-- A user called `"None"` lands 2 away, then Ana 12 away: the answer is Ana. -/
theorem mejor_olvidado :
    ¬ Ley (fun _ v => v) [⟨"None", 45, (130 : Int)⟩, ⟨"Ana", 45, 140⟩] := by
  intro h
  have := h.1 ⟨"None", 45, 130⟩ (by decide)
  exact absurd this (by decide)

end Cannon
