import LaurentCalc.Evaluation
import LaurentCalc.Proofs.Attempt
import LaurentCalc.Proofs.SortedEntries

/-!
# Names

Reduction brings in no names: every name in a result stands in the expression that
was reduced, and so does every name in its canonical text. Sums whose names are all the
same can be multiplied.
-/

namespace LaurentCalc

set_option autoImplicit false

def Term.Over (P : String → Prop) : Term → Prop
  | .number _ => True
  | .monomial x _ _ => P x

def TermSum.Over (P : String → Prop) : TermSum → Prop
  | .term t => t.Over P
  | .join _ l r => l.Over P ∧ r.Over P

def Expr.Over (P : String → Prop) : Expr → Prop
  | .term t => t.Over P
  | .unary _ e => e.Over P
  | .binary _ l r => l.Over P ∧ r.Over P

variable {P : String → Prop}

namespace Term

variable {t u v : Term}

theorem over_neg (h : t.Over P) : t.neg.Over P := by
  cases t <;> exact h

theorem over_power (n : Nat) (h : t.Over P) : (t.power n).Over P := by
  cases t <;> exact h

theorem over_unite? {s : Sign} (ht : t.Over P) (h : t.unite? s u = some v) : v.Over P := by
  cases unites_of_unite? h with
  | numbers a b => trivial
  | multiples x c d e => exact ht

theorem over_scale {s : Scaling} (ht : t.Over P) (hu : u.Over P) (h : t.scale s u = .ok v) :
    v.Over P := by
  cases s with
  | mul =>
    cases t <;> cases u
    · obtain rfl := Except.ok.inj h
      trivial
    · obtain rfl := Except.ok.inj h
      exact hu
    · obtain rfl := Except.ok.inj h
      exact ht
    · simp only [scale, mul] at h
      split at h
      · obtain rfl := Except.ok.inj h
        exact ht
      · cases h
  | div =>
    cases t <;> cases u
    · obtain ⟨_, _, rfl⟩ := map_eq_ok_iff.mp h
      trivial
    · obtain ⟨_, _, rfl⟩ := map_eq_ok_iff.mp h
      exact hu
    · obtain ⟨_, _, rfl⟩ := map_eq_ok_iff.mp h
      exact ht
    · simp only [scale, div] at h
      split at h
      · obtain ⟨_, _, rfl⟩ := map_eq_ok_iff.mp h
        exact ht
      · cases h

end Term

namespace TermSum

variable {p q r : TermSum}

theorem over_unite (s : Sign) (hp : p.Over P) (hq : q.Over P) : (unite s p q).Over P := by
  unfold unite
  split
  · split
    · next hunite => exact Term.over_unite? hp hunite
    · exact ⟨hp, hq⟩
  · exact ⟨hp, hq⟩

theorem over_united (h : p.Over P) : p.united.Over P := by
  induction p with
  | term t => exact h
  | join s l r ihl ihr => exact over_unite s (ihl h.1) (ihr h.2)

theorem over_neg (h : p.Over P) : p.neg.Over P := by
  induction p with
  | term t => exact Term.over_neg h
  | join s l r ihl ihr => exact ⟨ihl h.1, ihr h.2⟩

theorem over_negated (h : p.Over P) : p.negated.Over P := by
  cases p with
  | term t => exact Term.over_neg h
  | join s l r => exact ⟨over_neg (over_united h.1), over_neg (over_united h.2)⟩

theorem over_mapTerms {f : Term → Attempt Term} (hf : ∀ t v, t.Over P → f t = .ok v → v.Over P)
    (hp : p.Over P) (h : p.mapTerms f = .ok q) : q.Over P := by
  induction p generalizing q with
  | term t =>
    obtain ⟨v, hv, hq⟩ := bind_eq_ok_iff.mp h
    obtain rfl := Except.ok.inj hq
    exact hf t v hp hv
  | join s l r ihl ihr =>
    obtain ⟨l', hl, h⟩ := bind_eq_ok_iff.mp h
    obtain ⟨r', hr, hq⟩ := bind_eq_ok_iff.mp h
    obtain rfl := Except.ok.inj hq
    exact ⟨ihl hp.1 hl, ihr hp.2 hr⟩

theorem over_mul (hp : p.Over P) (hq : q.Over P) (h : p.mul q = .ok r) : r.Over P := by
  induction p generalizing r with
  | term t => exact over_mapTerms (fun _ _ hu => Term.over_scale (s := .mul) hu hp) hq h
  | join s l r ihl ihr =>
    obtain ⟨l', hl, h⟩ := bind_eq_ok_iff.mp h
    obtain ⟨r', hr, hr'⟩ := bind_eq_ok_iff.mp h
    obtain rfl := Except.ok.inj hr'
    exact ⟨ihl hp.1 hl, ihr hp.2 hr⟩

theorem over_divTerm {t : Term} (ht : t.Over P) (hq : q.Over P) (h : divTerm t q = .ok r) :
    r.Over P := by
  unfold divTerm at h
  split at h
  · next u hu =>
    obtain ⟨v, hv, hr⟩ := bind_eq_ok_iff.mp h
    obtain rfl := Except.ok.inj hr
    have hunited := over_united hq
    rw [hu] at hunited
    exact Term.over_scale (s := .div) ht hunited hv
  · cases h

theorem over_div (hp : p.Over P) (hq : q.Over P) (h : p.div q = .ok r) : r.Over P := by
  induction p generalizing r with
  | term t => exact over_divTerm hp hq h
  | join s l r ihl ihr =>
    rcases Attempt.orIfNoRule_eq_ok h with h | ⟨_, h⟩
    · obtain ⟨l', hl, h⟩ := bind_eq_ok_iff.mp h
      obtain ⟨r', hr, hr'⟩ := bind_eq_ok_iff.mp h
      obtain rfl := Except.ok.inj hr'
      exact ⟨ihl hp.1 hl, ihr hp.2 hr⟩
    · split at h
      · obtain rfl := Except.ok.inj h
        trivial
      · cases h

theorem over_scale {s : Scaling} (hp : p.Over P) (hq : q.Over P) (h : scale s p q = .ok r) :
    r.Over P := by
  cases s with
  | mul => exact over_mul hp hq h
  | div => exact over_div hp hq h

theorem over_of_mem_terms (hp : p.Over P) : ∀ t ∈ p.terms, t.Over P := by
  induction p with
  | term t =>
    intro u hu
    obtain rfl := List.mem_singleton.mp hu
    exact hp
  | join s l r ihl ihr =>
    intro u hu
    cases s with
    | plus =>
      rcases List.mem_append.mp hu with hu | hu
      · exact ihl hp.1 u hu
      · exact ihr hp.2 u hu
    | minus =>
      rcases List.mem_append.mp hu with hu | hu
      · exact ihl hp.1 u hu
      · obtain ⟨t, ht, rfl⟩ := List.mem_map.mp hu
        exact Term.over_neg (ihr hp.2 t ht)

end TermSum

namespace Collected

theorem name_of_mem_entries_foldl (ts : List Term) {c : Collected} (hts : ∀ t ∈ ts, t.Over P)
    (hc : ∀ entry ∈ c.entries, P entry.name) :
    ∀ entry ∈ (ts.foldl add c).entries, P entry.name := by
  induction ts generalizing c with
  | nil => exact hc
  | cons t ts ih =>
    apply ih fun u hu => hts u (List.mem_cons_of_mem t hu)
    have ht := hts t List.mem_cons_self
    cases t with
    | number v => exact hc
    | monomial x k e =>
      intro entry hentry
      rcases Entry.mem_insert hentry with ⟨hname, _⟩ | hentry
      · exact hname ▸ ht
      · exact hc entry hentry

theorem over_of_mem_remaining {c : Collected} (hc : ∀ entry ∈ c.entries, P entry.name) :
    ∀ t ∈ c.remaining, t.Over P := by
  have hpowers : ∀ t ∈ (c.entries.filter (·.coefficient ≠ 0)).map Entry.toTerm, t.Over P := by
    intro t ht
    obtain ⟨entry, hentry, rfl⟩ := List.mem_map.mp ht
    exact hc entry (List.mem_of_mem_filter hentry)
  intro t ht
  simp only [remaining] at ht
  split at ht
  · rcases List.mem_append.mp ht with ht | ht
    · exact hpowers t ht
    · obtain rfl := List.mem_singleton.mp ht
      trivial
  · exact hpowers t ht

end Collected

namespace TermSum

variable {p q : TermSum}

theorem name_of_mem_collected (hp : p.Over P) : ∀ entry ∈ p.collected.entries, P entry.name :=
  Collected.name_of_mem_entries_foldl p.terms (over_of_mem_terms hp)
    fun _ hentry => absurd hentry List.not_mem_nil

theorem over_plusTerms (ts : List Term) (hp : p.Over P) (hts : ∀ t ∈ ts, t.Over P) :
    (plusTerms p ts).Over P := by
  induction ts generalizing p with
  | nil => exact hp
  | cons t ts ih =>
    exact ih ⟨hp, hts t List.mem_cons_self⟩ fun u hu => hts u (List.mem_cons_of_mem t hu)

theorem over_collect (hp : p.Over P) : p.collect.Over P := by
  have hterms := Collected.over_of_mem_remaining (name_of_mem_collected hp)
  unfold collect ofTerms
  cases hremaining : p.collected.remaining with
  | nil => trivial
  | cons t ts =>
    rw [hremaining] at hterms
    exact over_plusTerms ts (hterms t List.mem_cons_self) fun u hu =>
      hterms u (List.mem_cons_of_mem t hu)

theorem over_mulRepeatedly {factor : TermSum} {n : Nat} (hfactor : factor.Over P) (hp : p.Over P)
    (h : mulRepeatedly factor n p = .ok q) : q.Over P := by
  induction n generalizing p with
  | zero =>
    obtain rfl := Except.ok.inj h
    exact hp
  | succ n ih =>
    obtain ⟨next, hnext, h⟩ := bind_eq_ok_iff.mp h
    exact ih (over_collect (over_mul hp hfactor hnext)) h

theorem over_power {n : Nat} (hp : p.Over P) (h : p.power n = .ok q) : q.Over P := by
  cases p with
  | term t =>
    obtain rfl := Except.ok.inj h
    exact Term.over_power n hp
  | join s l r => exact over_mulRepeatedly hp hp h

end TermSum

section SameNames

-- No name of the one kind differs from a name of the other.
variable {Q : String → Prop} (hsame : ∀ x y, P x → Q y → x = y)
include hsame

theorem Term.exists_mul {t u : Term} (ht : t.Over P) (hu : u.Over Q) : ∃ v, t.mul u = .ok v := by
  cases t with
  | number v => cases u <;> exact ⟨_, rfl⟩
  | monomial x c e =>
    cases u with
    | number w => exact ⟨_, rfl⟩
    | monomial y d f => exact ⟨_, if_pos (hsame x y ht hu)⟩

omit hsame in
theorem TermSum.exists_mapTerms {f : Term → Attempt Term} {p : TermSum}
    (hf : ∀ t, t.Over P → ∃ v, f t = .ok v) (hp : p.Over P) : ∃ q, p.mapTerms f = .ok q := by
  induction p with
  | term t =>
    obtain ⟨v, hv⟩ := hf t hp
    exact ⟨.term v, by rw [mapTerms, hv, ok_bind]; rfl⟩
  | join s l r ihl ihr =>
    obtain ⟨l', hl⟩ := ihl hp.1
    obtain ⟨r', hr⟩ := ihr hp.2
    exact ⟨.join s l' r', by rw [mapTerms, hl, hr, ok_bind, ok_bind]; rfl⟩

theorem TermSum.exists_mul {p q : TermSum} (hp : p.Over P) (hq : q.Over Q) :
    ∃ r, p.mul q = .ok r := by
  induction p with
  | term t =>
    apply exists_mapTerms _ hq
    intro u hu
    exact Term.exists_mul (fun y x hy hx => (hsame x y hx hy).symm) hu hp
  | join s l r ihl ihr =>
    obtain ⟨l', hl⟩ := ihl hp.1
    obtain ⟨r', hr⟩ := ihr hp.2
    exact ⟨.join s l' r', by rw [mul, hl, hr, ok_bind, ok_bind]; rfl⟩

end SameNames

section SameName

variable (hsame : ∀ x y, P x → P y → x = y)
include hsame

theorem TermSum.exists_mulRepeatedly {factor p : TermSum} (n : Nat) (hfactor : factor.Over P)
    (hp : p.Over P) : ∃ q, mulRepeatedly factor n p = .ok q := by
  induction n generalizing p with
  | zero => exact ⟨p, rfl⟩
  | succ n ih =>
    obtain ⟨next, hnext⟩ := exists_mul hsame hp hfactor
    obtain ⟨q, hq⟩ := ih (over_collect (over_mul hp hfactor hnext))
    exact ⟨q, by rw [mulRepeatedly, hnext, ok_bind, hq]⟩

theorem TermSum.exists_power {p : TermSum} (n : Nat) (hp : p.Over P) :
    ∃ q, p.power n = .ok q := by
  cases p with
  | term t => exact ⟨_, rfl⟩
  | join s l r => exact exists_mulRepeatedly hsame (n - 1) hp hp

end SameName

namespace Expr

/-- A power reduces to one or to a power of what its base reduces to. -/
theorem power_of_reduce {l r : Expr} {m : TermSum} (h : (binary .power l r).reduce = .ok m) :
    m = .number 1 ∨ ∃ p n, l.reduce = .ok p ∧ TermSum.power n p = .ok m := by
  rw [reduce] at h
  obtain ⟨q, -, h⟩ := bind_eq_ok_iff.mp h
  split at h
  · next n =>
    split at h
    · cases h
    · split at h
      · split at h
        · split at h
          · cases h
          · exact Or.inl (Except.ok.inj h).symm
        · exact Or.inl (Except.ok.inj h).symm
        · cases h
      · obtain ⟨p, hp, h⟩ := bind_eq_ok_iff.mp h
        exact Or.inr ⟨p, n.toNat, hp, h⟩
  · cases h

/-- A result has only names of the expression that was reduced. -/
theorem over_reduce {e : Expr} {p : TermSum} (he : e.Over P) (h : e.reduce = .ok p) : p.Over P := by
  induction e using (reduceInduction fun s l r => ∀ m,
    l.Over P → r.Over P → distribute s l r = .ok m → m.Over P) generalizing p with
  | term t =>
    rw [reduce] at h
    obtain rfl := Except.ok.inj h
    exact he
  | plus e ih =>
    rw [reduce] at h
    exact ih he h
  | minus e ih =>
    rw [reduce] at h
    obtain ⟨q, hq, h⟩ := bind_eq_ok_iff.mp h
    obtain rfl := Except.ok.inj h
    exact TermSum.over_negated (ih he hq)
  | unknownSign =>
    rw [reduce] at h
    cases h
  | additive s l r ihl ihr =>
    rw [reduce] at h
    obtain ⟨q, hq, h⟩ := bind_eq_ok_iff.mp h
    obtain ⟨q', hq', h⟩ := bind_eq_ok_iff.mp h
    obtain rfl := Except.ok.inj h
    exact TermSum.over_unite s (ihl he.1 hq) (ihr he.2 hq')
  | mul l r ih =>
    rw [reduce] at h
    exact ih p he.1 he.2 h
  | div l r ih ihl ihr =>
    rw [reduce] at h
    rcases Attempt.orIfNoRule_eq_ok h with h | ⟨_, h⟩
    · exact ih p he.1 he.2 h
    · obtain ⟨q, _, h⟩ := bind_eq_ok_iff.mp h
      obtain ⟨q', _, h⟩ := bind_eq_ok_iff.mp h
      split at h
      · obtain rfl := Except.ok.inj h
        trivial
      · cases h
  | power l r ihr ihl =>
    rcases power_of_reduce h with rfl | ⟨q, n, hq, hp⟩
    · trivial
    · exact TermSum.over_power (ihl he.1 hq) hp
  | unknownOperator =>
    rw [reduce] at h
    cases h
  | terms s t u m ht hu h =>
    simp only [distribute] at h
    obtain ⟨v, hv, h⟩ := bind_eq_ok_iff.mp h
    obtain rfl := Except.ok.inj h
    exact Term.over_scale ht hu hv
  | termMulSum t a x y ihx ihy m ht hxy h =>
    simp only [distribute] at h
    obtain ⟨q, hq, h⟩ := bind_eq_ok_iff.mp h
    obtain ⟨q', hq', h⟩ := bind_eq_ok_iff.mp h
    obtain rfl := Except.ok.inj h
    exact ⟨ihx ⟨hxy.1, ht⟩ hq, ihy ⟨hxy.2, ht⟩ hq'⟩
  | termDivSum t a x y ih m ht hxy h =>
    simp only [distribute] at h
    obtain ⟨q, hq, h⟩ := bind_eq_ok_iff.mp h
    have hover := ih hxy hq
    split at h
    · obtain ⟨v, hv, h⟩ := bind_eq_ok_iff.mp h
      obtain rfl := Except.ok.inj h
      exact Term.over_scale (s := .div) ht hover hv
    · cases h
  | sumSigned s a x y op e ihl ihr m hl hr h =>
    simp only [distribute] at h
    obtain ⟨q, hq, h⟩ := bind_eq_ok_iff.mp h
    obtain ⟨q', hq', h⟩ := bind_eq_ok_iff.mp h
    exact TermSum.over_scale (ihl hl hq) (ihr hr hq') h
  | sum s a x y r hsign ihx ihy m hl hr h =>
    rw [distribute] at h
    · obtain ⟨q, hq, h⟩ := bind_eq_ok_iff.mp h
      obtain ⟨q', hq', h⟩ := bind_eq_ok_iff.mp h
      obtain rfl := Except.ok.inj h
      exact ⟨ihx ⟨hl.1, hr⟩ hq, ihy ⟨hl.2, hr⟩ hq'⟩
    · exact hsign
  | operands s l r h₁ h₂ h₃ h₄ ihl ihr m hl hr h =>
    rw [distribute] at h
    · obtain ⟨q, hq, h⟩ := bind_eq_ok_iff.mp h
      obtain ⟨q', hq', h⟩ := bind_eq_ok_iff.mp h
      exact TermSum.over_scale (ihl hl hq) (ihr hr hq') h
    all_goals assumption

end Expr

end LaurentCalc
