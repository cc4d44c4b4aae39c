import LaurentCalc.Proofs.EmbeddedTexts
import LaurentCalc.Proofs.ReducedOperands
import LaurentCalc.Proofs.Truncation

/-!
# Quotients by integers

A quotient is distributed over the sum in its numerator before like terms are united, unless the
divisor is signed. So it need not depend on the polynomial of the numerator alone: what it comes
to for a canonical text is what it comes to for another numerator of the same polynomial exactly
if the summands of that one truncate evenly.
-/

namespace LaurentCalc

set_option autoImplicit false

namespace Expr

def Unsigned (divisor : Expr) : Prop := ∀ op operand, divisor = .unary op operand → False

/-- The sum over which a quotient is distributed. The sides of a numerator that adds or subtracts
are reduced one by one, unless the divisor is signed. -/
def dividend : Expr → (divisor : Expr) → Attempt TermSum
  | .binary (.additive s) l r, .unary _ _ => (additive s l r).reduce
  | .binary (.additive s) l r, divisor => do
    let p ← l.dividend divisor
    let q ← r.dividend divisor
    return .join s p q
  | e, _ => e.reduce

variable {divisor e l r : Expr} {p d : TermSum} {c : Int}

theorem dividend_signed (e : Expr) (op : UnaryOp) (operand : Expr) :
    e.dividend (.unary op operand) = e.reduce := by
  unfold dividend
  split
  · rfl
  · next hsign => exact absurd rfl (hsign op operand)
  · rfl

theorem dividend_additive {s : Sign} (hsign : divisor.Unsigned) :
    (additive s l r).dividend divisor = (do
      let p ← l.dividend divisor
      let q ← r.dividend divisor
      return .join s p q) := by
  rw [dividend]
  exact hsign

theorem dividend_of_not_additive (h : ∀ s l r, e ≠ .additive s l r) (divisor : Expr) :
    e.dividend divisor = e.reduce := by
  unfold dividend
  split
  · exact absurd rfl (h _ _ _)
  · exact absurd rfl (h _ _ _)
  · rfl

theorem dividend_additive_eq_ok {s : Sign} (hsign : divisor.Unsigned) :
    (additive s l r).dividend divisor = .ok d ↔
      ∃ p q, l.dividend divisor = .ok p ∧ r.dividend divisor = .ok q ∧ d = .join s p q := by
  rw [dividend_additive hsign, bind_eq_ok_iff]
  constructor
  · rintro ⟨p, hp, h⟩
    obtain ⟨q, hq, h⟩ := bind_eq_ok_iff.mp h
    exact ⟨p, q, hp, hq, (Except.ok.inj h).symm⟩
  · rintro ⟨p, q, hp, hq, rfl⟩
    exact ⟨p, hp, bind_eq_ok_iff.mpr ⟨q, hq, rfl⟩⟩

theorem signed_or_unsigned (divisor : Expr) :
    (∃ op operand, divisor = .unary op operand) ∨ divisor.Unsigned := by
  rw [or_iff_not_imp_left]
  intro h op operand heq
  exact h ⟨op, operand, heq⟩

/-- Induction over the sides of sums, whatever is no sum being taken as a whole. -/
theorem sidesInduction {motive : Expr → Prop}
    (additive : ∀ s l r, motive l → motive r → motive (.additive s l r))
    (other : ∀ e, (∀ s l r, e ≠ .additive s l r) → motive e) (e : Expr) : motive e := by
  induction e with
  | term t => exact other _ fun _ _ _ => Expr.noConfusion
  | unary op e ih => exact other _ fun _ _ _ => Expr.noConfusion
  | binary op l r ihl ihr =>
    cases op with
    | additive s => exact additive s l r ihl ihr
    | _ => exact other _ fun _ _ _ heq => by cases heq

/-- A numerator that reduces can be divided, and the sum over which the quotient is distributed has
its polynomial. -/
theorem exists_dividend (divisor : Expr) (h : e.reduce = .ok p) :
    ∃ d, e.dividend divisor = .ok d ∧ d.laurent = p.laurent := by
  rcases signed_or_unsigned divisor with ⟨op, operand, rfl⟩ | hsign
  · exact ⟨p, (dividend_signed e op operand).trans h, rfl⟩
  induction e using sidesInduction generalizing p with
  | additive s l r ihl ihr =>
    obtain ⟨p₁, p₂, hl, hr, rfl⟩ := reduce_additive_eq_ok h
    obtain ⟨d₁, hd₁, hlaurent₁⟩ := ihl hl
    obtain ⟨d₂, hd₂, hlaurent₂⟩ := ihr hr
    refine ⟨.join s d₁ d₂, (dividend_additive_eq_ok hsign).mpr ⟨d₁, d₂, hd₁, hd₂, rfl⟩, ?_⟩
    rw [TermSum.laurent_unite, ← hlaurent₁, ← hlaurent₂]
    rfl
  | other e hother => exact ⟨p, (dividend_of_not_additive hother divisor).trans h, rfl⟩

theorem over_dividend {P : String → Prop} (he : e.Over P) (h : e.dividend divisor = .ok d) :
    d.Over P := by
  rcases signed_or_unsigned divisor with ⟨op, operand, rfl⟩ | hsign
  · rw [dividend_signed] at h
    exact over_reduce he h
  induction e using sidesInduction generalizing d with
  | additive s l r ihl ihr =>
    obtain ⟨p, q, hp, hq, rfl⟩ := (dividend_additive_eq_ok hsign).mp h
    exact ⟨ihl he.1 hp, ihr he.2 hq⟩
  | other e hother =>
    rw [dividend_of_not_additive hother] at h
    exact over_reduce he h

/-- Where no two summands are alike, there is nothing to unite. -/
theorem reduce_eq_of_unlike (hsign : divisor.Unsigned) (h : e.dividend divisor = .ok d)
    (hunlike : d.Unlike) : e.reduce = .ok d := by
  induction e using sidesInduction generalizing d with
  | additive s l r ihl ihr =>
    obtain ⟨p, q, hp, hq, rfl⟩ := (dividend_additive_eq_ok hsign).mp h
    rw [reduce, ihl hp hunlike.left, ihr hq hunlike.right, ok_bind, ok_bind, hunlike.unite_eq]
    rfl
  | other e hother => rwa [dividend_of_not_additive hother] at h

section Distribution

variable (hc : c ≠ 0) (hdivisor : divisor.reduce = .ok (.number c))
include hc hdivisor

theorem distribute_of_not_additive (h : ∀ s l r, e ≠ .additive s l r) (he : e.reduce = .ok p) :
    distribute .div e divisor = .ok (p.truncated c) := by
  unfold distribute
  split
  · next t u =>
    rw [reduce] at he hdivisor
    cases he
    cases hdivisor
    exact bind_eq_ok_iff.mpr ⟨_, t.div_number_eq hc, rfl⟩
  · next t a x y =>
    rw [reduce] at he
    cases he
    simp only [hdivisor, ok_bind]
    exact bind_eq_ok_iff.mpr ⟨_, t.div_number_eq hc, rfl⟩
  · exact absurd rfl (h _ _ _)
  · exact absurd rfl (h _ _ _)
  · rw [he, hdivisor, ok_bind, ok_bind]
    exact p.div_number_eq hc

/-- Dividing by an integer truncates the summands over which the quotient is distributed. -/
theorem reduce_quotient (h : e.dividend divisor = .ok d) :
    (scaling .div e divisor).reduce = .ok (d.truncated c) := by
  suffices hdistribute : distribute .div e divisor = .ok (d.truncated c) by
    rw [reduce, hdistribute, Attempt.ok_orIfNoRule]
  induction e using sidesInduction generalizing d with
  | additive s l r ihl ihr =>
    -- A signed divisor takes the reduced sum as a whole.
    rcases signed_or_unsigned divisor with ⟨op, operand, rfl⟩ | hsign
    · rw [dividend_signed] at h
      rw [distribute, h, hdivisor, ok_bind, ok_bind]
      exact d.div_number_eq hc
    · obtain ⟨p, q, hp, hq, rfl⟩ := (dividend_additive_eq_ok hsign).mp h
      have hl : (scaling .div l divisor).reduce = .ok (p.truncated c) := by
        rw [reduce, ihl hp, Attempt.ok_orIfNoRule]
      have hr : (scaling .div r divisor).reduce = .ok (q.truncated c) := by
        rw [reduce, ihr hq, Attempt.ok_orIfNoRule]
      rw [distribute, hl, hr, ok_bind, ok_bind]
      · rfl
      · exact hsign
  | other e hother =>
    rw [dividend_of_not_additive hother] at h
    exact distribute_of_not_additive hc hdivisor hother h

end Distribution

theorem reduce_mul_number {n k i : Int} {x : String} (hl : l.reduce = .ok (.number n))
    (hr : r.reduce = .ok (.term (.monomial x k i))) (hleft : ∀ s a b, l ≠ .additive s a b)
    (hright : ∀ s a b, r ≠ .additive s a b) :
    (scaling .mul l r).reduce = .ok (.term (.monomial x (k * n) i)) := by
  rw [reduce]
  unfold distribute
  split
  · next t u =>
    rw [reduce] at hl hr
    cases hl
    cases hr
    rfl
  · exact absurd rfl (hright _ _ _)
  · exact absurd rfl (hleft _ _ _)
  · exact absurd rfl (hleft _ _ _)
  · rw [hl, hr]
    rfl

end Expr

namespace Entry

variable {entry : Entry}

theorem unsignedPhrase_ne_additive (entry : Entry) (s : Sign) (l r : Expr) :
    entry.unsignedPhrase ≠ .additive s l r := by
  unfold unsignedPhrase
  split
  · exact entry.powerPhrase_ne_additive s l r
  · exact fun heq => by cases heq

theorem leadingPhrase_ne_additive (entry : Entry) (s : Sign) (l r : Expr) :
    entry.leadingPhrase ≠ .additive s l r := by
  unfold leadingPhrase
  split
  · split
    · exact Expr.noConfusion
    · exact entry.powerPhrase_ne_additive s l r
  · exact fun heq => by cases heq

theorem reduce_powerPhrase (h : 0 < entry.exponent) :
    entry.powerPhrase.reduce = .ok (.term (.monomial entry.name 1 entry.exponent)) := by
  unfold powerPhrase
  split
  · next hone =>
    rw [Expr.reduce, Term.named, hone]
  · have hnonneg : ¬entry.exponent < 0 := by omega
    have hnonzero : entry.exponent ≠ 0 := by omega
    rw [Expr.reduce, Expr.reduce_ofInt, ok_bind]
    simp only [hnonneg, hnonzero, if_false, Expr.reduce, ok_bind]
    rw [TermSum.power, Term.named, Term.power, raise_eq_pow, one_pow, one_mul,
      Int.toNat_of_nonneg (Int.le_of_lt h)]

theorem reduce_unsignedPhrase (h : 0 < entry.exponent) :
    entry.unsignedPhrase.reduce =
      .ok (.term (.monomial entry.name entry.coefficient.natAbs entry.exponent)) := by
  have hpower := reduce_powerPhrase h
  unfold unsignedPhrase
  split
  · next hone => rw [hpower, hone, Int.natCast_one]
  · have hnumber : (Expr.number entry.coefficient.natAbs).reduce =
        .ok (.number entry.coefficient.natAbs) := by rw [Expr.reduce]
    rw [Expr.reduce_mul_number hnumber hpower (fun _ _ _ => Expr.noConfusion)
      entry.powerPhrase_ne_additive, one_mul]

theorem reduce_leadingPhrase (h : 0 < entry.exponent) :
    entry.leadingPhrase.reduce = .ok (.term entry.toTerm) := by
  have hpower := reduce_powerPhrase h
  unfold leadingPhrase
  split
  · next hone =>
    split
    · next hneg =>
      have hminus : entry.coefficient = -1 := by omega
      rw [Expr.reduce, hpower, toTerm, hminus]
      rfl
    · next hnonneg =>
      have hplus : entry.coefficient = 1 := by omega
      rw [hpower, toTerm, hplus]
  · rw [Expr.reduce_mul_number (Expr.reduce_ofInt _) hpower (Expr.ofInt_ne_additive _)
      entry.powerPhrase_ne_additive, one_mul, toTerm]

end Entry

/-- The phrase of the summand reduces to one term, with the given key. -/
structure Summand.Keyed (s : Summand) (key : Option (String × Int)) : Prop where
  not_additive : ∀ a l r, s.phrase ≠ .additive a l r
  exists_term : ∃ t, s.phrase.reduce = .ok (.term t) ∧ t.key = key

theorem Entry.keyed_summand {entry : Entry} (h : 0 < entry.exponent) :
    entry.summand.Keyed entry.toTerm.key :=
  ⟨entry.unsignedPhrase_ne_additive, _, reduce_unsignedPhrase h, rfl⟩

namespace Collected

def keys (entries : List Entry) (constant : Int) : List (Option (String × Int)) :=
  entries.map (fun entry => entry.toTerm.key) ++ if constant = 0 then [] else [none]

theorem keyed_summands {rest : List Entry} (h : ∀ entry ∈ rest, 0 < entry.exponent)
    (constant : Int) :
    List.Forall₂ Summand.Keyed (rest.map Entry.summand ++ constantSummands constant)
      (keys rest constant) := by
  induction rest with
  | nil =>
    unfold constantSummands keys
    split
    · exact .nil
    · refine .cons ⟨fun _ _ _ => Expr.noConfusion, .number constant.natAbs, ?_, rfl⟩ .nil
      rw [Expr.reduce]
  | cons entry rest ih =>
    obtain ⟨hentry, hrest⟩ := List.forall_mem_cons.mp h
    exact .cons (Entry.keyed_summand hentry) (ih hrest)

theorem nodup_keys {entries : List Entry} (hs : Entry.Sorted entries)
    (h : ∀ entry ∈ entries, 0 < entry.exponent) (constant : Int) :
    (keys entries constant).Nodup := by
  have hkey : ∀ entry ∈ entries, entry.toTerm.key = some (entry.name, entry.exponent) := by
    intro entry hentry
    have hpos := h entry hentry
    rw [Entry.toTerm, Term.key_monomial, if_neg (by omega)]
  refine List.nodup_append.mpr ⟨?_, ?_, ?_⟩
  · rw [List.Nodup, List.pairwise_map]
    refine List.Pairwise.imp_of_mem ?_ hs
    intro a b ha hb hbefore heq
    rw [hkey a ha, hkey b hb, Option.some.injEq, Prod.mk.injEq] at heq
    obtain rfl := hs.eq_of_key ha hb heq.1 heq.2
    exact Entry.before_irrefl a hbefore
  · split
    · exact List.nodup_nil
    · exact List.nodup_singleton none
  · intro k hk k' hk' heq
    obtain ⟨entry, hentry, rfl⟩ := List.mem_map.mp hk
    split at hk'
    · cases hk'
    · rw [List.mem_singleton.mp hk', hkey entry hentry] at heq
      cases heq

end Collected

namespace Expr

variable {divisor e : Expr} {d : TermSum}

theorem dividend_plusSummands {ss : List Summand} {keys : List (Option (String × Int))}
    (hsign : divisor.Unsigned) (he : e.dividend divisor = .ok d)
    (hss : List.Forall₂ Summand.Keyed ss keys) :
    ∃ q, (e.plusSummands ss).dividend divisor = .ok q ∧
      q.terms.map Term.key = d.terms.map Term.key ++ keys := by
  induction hss generalizing e d with
  | nil => exact ⟨d, he, (List.append_nil _).symm⟩
  | @cons s key ss keys hs hss ih =>
    obtain ⟨hother, t, ht, rfl⟩ := hs
    have hphrase : s.phrase.dividend divisor = .ok (.term t) :=
      (dividend_of_not_additive hother divisor).trans ht
    obtain ⟨q, hq, hkeys⟩ :=
      ih ((dividend_additive_eq_ok hsign).mpr ⟨d, .term t, he, hphrase, rfl⟩)
    refine ⟨q, hq, ?_⟩
    rw [hkeys, TermSum.map_key_terms_join, List.append_assoc]
    rfl

end Expr

namespace Collected

variable {c : Collected}

/-- The summands of a canonical phrase whose exponents are positive are not alike. -/
theorem exists_unlike_of_unsigned {divisor : Expr} (hs : Entry.Sorted c.entries)
    (hpos : ∀ entry ∈ c.shown, 0 < entry.exponent) (hsign : divisor.Unsigned) :
    ∃ d, c.phrase.dividend divisor = .ok d ∧ d.Unlike := by
  have hsorted := sorted_shown hs
  unfold phrase
  cases hshown : c.shown with
  | nil =>
    refine ⟨.number c.total, ?_, List.nodup_singleton none⟩
    simp only [Expr.dividend_of_not_additive (Expr.ofInt_ne_additive _), Expr.reduce_ofInt]
  | cons first rest =>
    rw [hshown] at hpos hsorted
    obtain ⟨hfirst, hrest⟩ := List.forall_mem_cons.mp hpos
    have hleading : first.leadingPhrase.dividend divisor = .ok (.term first.toTerm) :=
      (Expr.dividend_of_not_additive first.leadingPhrase_ne_additive divisor).trans
        (Entry.reduce_leadingPhrase hfirst)
    obtain ⟨d, hd, hkeys⟩ :=
      Expr.dividend_plusSummands hsign hleading (keyed_summands hrest c.total)
    refine ⟨d, hd, ?_⟩
    rw [TermSum.Unlike, hkeys]
    exact nodup_keys hsorted hpos c.total

/-- A canonical phrase without negative exponents reduces to a sum of unlike summands, over which
its quotients are distributed, whatever divides it. -/
theorem exists_unlike_dividend (hs : Entry.Sorted c.entries)
    (hexp : ∀ entry ∈ c.shown, 0 ≤ entry.exponent) (divisor : Expr) :
    ∃ d, c.phrase.reduce = .ok d ∧ c.phrase.dividend divisor = .ok d ∧ d.Unlike := by
  have hpos : ∀ entry ∈ c.shown, 0 < entry.exponent := by
    intro entry hentry
    have hnonneg := hexp entry hentry
    have hnonzero := ((mem_shown_iff hs).mp hentry).1
    omega
  rcases Expr.signed_or_unsigned divisor with ⟨op, operand, rfl⟩ | hsign
  · -- What a signed divisor finds reduced is what any other one would find.
    have hnumber : (Expr.number 1).Unsigned := fun _ _ => Expr.noConfusion
    obtain ⟨d, hd, hunlike⟩ := exists_unlike_of_unsigned hs hpos hnumber
    have hreduce := Expr.reduce_eq_of_unlike hnumber hd hunlike
    exact ⟨d, hreduce, (Expr.dividend_signed _ op operand).trans hreduce, hunlike⟩
  · obtain ⟨d, hd, hunlike⟩ := exists_unlike_of_unsigned hs hpos hsign
    exact ⟨d, Expr.reduce_eq_of_unlike hsign hd hunlike, hd, hunlike⟩

end Collected

/-- The text of a quotient: a numerator between parentheses over an integer. -/
def quotientText (numerator : String) (c : Int) : String := "(" ++ numerator ++ ") / " ++ c.repr

section Texts

variable {text : String} {e : Expr} {p d : TermSum} {c : Int} {limit : Nat} {debug : Bool}

theorem embeds_quotientText (h : Embeds .expression text.toList e) (c : Int) :
    Embeds .expression (quotientText text c).toList (.scaling .div e (.ofInt c)) := by
  have hquotient := (h.group.widen (by decide)).quotient (.of_writes (.ofInt c))
  have htext : (quotientText text c).toList =
      '(' :: (text.toList ++ [')']) ++ ' ' :: '/' :: ' ' :: c.repr.toList := by
    simp [quotientText]
  rw [htext]
  exact hquotient.widen (by decide)

theorem evaluate_quotientText (h : Embeds .expression text.toList e) (hc : c ≠ 0)
    (hd : e.dividend (.ofInt c) = .ok d) (hlimit : (quotientText text c).length ≤ limit) :
    (evaluate limit debug (quotientText text c)).outcome = .ok (d.truncated c).render := by
  have hreduce := Expr.reduce_quotient hc (Expr.reduce_ofInt c) hd
  exact outcome_evaluate_of_simplify ((embeds_quotientText h c).parseWithin_eq_ok hlimit)
    (Expr.simplify_eq_ok_iff.mpr hreduce)

end Texts

/-- Numerators that reduce can all be divided by an integer other than zero. If they have the same
text, their quotients do so exactly if, power by power, the truncated coefficients of like summands
have the same sum in both, so in any case if both truncate evenly. For a text and its result, where
that has no negative exponent, it is so exactly if the summands of the text truncate evenly. -/
theorem quotients_of_like_numerators (c : Int) (hc : c ≠ 0) :
    (∀ {a b divisor : Expr} {p q : TermSum}, divisor.reduce = .ok (.number c) →
      a.reduce = .ok p → b.reduce = .ok q → p.render = q.render →
      ∃ d f p' q', a.dividend divisor = .ok d ∧ b.dividend divisor = .ok f ∧
        (Expr.scaling .div a divisor).reduce = .ok p' ∧
        (Expr.scaling .div b divisor).reduce = .ok q' ∧
        (a.Over Spelled → b.Over Spelled →
          (p'.render = q'.render ↔ ∀ key, ((d.coefficients key).map (·.tdiv c)).sum =
            ((f.coefficients key).map (·.tdiv c)).sum) ∧
          (d.TruncatesEvenly c → f.TruncatesEvenly c → p'.render = q'.render))) ∧
    ∀ {text : String} {e : Expr} {p : TermSum} {limit : Nat},
      Expr.parse limit text = .ok e →
      Splits (Cursor.ofText text).words (Cursor.ofText text).words [] e →
      e.reduce = .ok p → (∀ entry ∈ p.collected.shown, 0 ≤ entry.exponent) →
      ∃ d, e.dividend (.ofInt c) = .ok d ∧
        ∀ (limit limit' : Nat) (debug debug' : Bool), (quotientText text c).length ≤ limit →
          (quotientText p.render c).length ≤ limit' →
          ∃ s s', (evaluate limit debug (quotientText text c)).outcome = .ok s ∧
            (evaluate limit' debug' (quotientText p.render c)).outcome = .ok s' ∧
            (s = s' ↔ d.TruncatesEvenly c) := by
  constructor
  · intro a b divisor p q hdivisor hp hq hrender
    obtain ⟨d, hd, hlaurent⟩ := Expr.exists_dividend divisor hp
    obtain ⟨f, hf, hlaurent'⟩ := Expr.exists_dividend divisor hq
    refine ⟨d, f, d.truncated c, f.truncated c, hd, hf, Expr.reduce_quotient hc hdivisor hd,
      Expr.reduce_quotient hc hdivisor hf, fun ha hb => ?_⟩
    have hspelled := Expr.over_dividend ha hd
    have hspelled' := Expr.over_dividend hb hf
    have hsame : d.laurent = f.laurent := by
      rw [hlaurent, hlaurent']
      exact (TermSum.render_eq_iff (Expr.over_reduce ha hp) (Expr.over_reduce hb hq)).mp hrender
    constructor
    · rw [TermSum.render_eq_iff (TermSum.over_truncated c hspelled)
        (TermSum.over_truncated c hspelled'), TermSum.laurent_eq_iff_coefficients]
      simp only [TermSum.coefficients_truncated]
    · intro heven heven'
      exact (TermSum.render_truncated_eq_iff hspelled hspelled' hsame heven').mpr heven
  · intro text e p limit hparse hsplits hp hexp
    have hover := (Expr.written_of_parse_eq_ok hparse).over
    have hwrites : Writes .expression p.render.toList p.collected.phrase :=
      Collected.writes_phrase (TermSum.name_of_mem_collected (Expr.over_reduce hover hp))
    -- The phrase is read from the result, so its names are spelled with letters as well.
    have hphrase := (Expr.parseWithin_eq_ok_iff.mp (hwrites.parseWithin_eq_ok (Nat.le_refl _))).1
    have hover' := (Expr.written_of_parse_eq_ok hphrase).over
    obtain ⟨d, hd, hlaurent⟩ := Expr.exists_dividend (.ofInt c) hp
    obtain ⟨f, hreduce, hf, hunlike⟩ :=
      Collected.exists_unlike_dividend (Entry.sorted_collected p) hexp (.ofInt c)
    refine ⟨d, hd, fun limit limit' debug debug' hlimit hlimit' => ?_⟩
    have hknown := Expr.unknown_eq_none_of_parse_eq_ok hparse
    refine ⟨_, _, evaluate_quotientText (.of_splits hknown hsplits) hc hd hlimit,
      evaluate_quotientText (.of_writes hwrites) hc hf hlimit', ?_⟩
    exact TermSum.render_truncated_eq_iff (Expr.over_dividend hover hd)
      (Expr.over_dividend hover' hf)
      (hlaurent.trans (TermSum.laurent_of_reduce_phrase hreduce).symm)
      (TermSum.truncatesEvenly_of_unlike hunlike c)

set_option maxRecDepth 20000 in
theorem quotients_of_like_numerators_two :
    (∃ p' q',
      (Expr.scaling .div (.additive .plus (.term (.monomial "x" 2 1)) (.term (.monomial "x" 4 1)))
        (.number 2)).reduce = .ok p' ∧
      (Expr.scaling .div (.term (.monomial "x" 6 1)) (.number 2)).reduce = .ok q' ∧
      p'.render = q'.render) ∧
    (evaluate 600 false "x + x").outcome = .ok "2*x" ∧
    (evaluate 600 false (quotientText "x + x" 2)).outcome ≠
      (evaluate 600 false (quotientText "2*x" 2)).outcome := by
  have htwo : (2 : Int) ≠ 0 := by decide
  obtain ⟨htrees, htexts⟩ := quotients_of_like_numerators 2 htwo
  refine ⟨?_, by cbv, ?_⟩
  · have hspelled : Spelled "x" := ⟨by decide, List.forall_mem_singleton.mpr rfl⟩
    have hdivisor : (Expr.number 2).reduce = .ok (.number 2) := by rw [Expr.reduce]
    have hsum : (Expr.additive .plus (.term (.monomial "x" 2 1))
        (.term (.monomial "x" 4 1))).reduce = .ok (.term (.monomial "x" 6 1)) := by cbv
    have hterm : (Expr.term (.monomial "x" 6 1)).reduce = .ok (.term (.monomial "x" 6 1)) := by
      rw [Expr.reduce]
    have hdividend : (Expr.additive .plus (.term (.monomial "x" 2 1))
        (.term (.monomial "x" 4 1))).dividend (.number 2) =
          .ok (.join .plus (.term (.monomial "x" 2 1)) (.term (.monomial "x" 4 1))) := by cbv
    have hdividend' : (Expr.term (.monomial "x" 6 1)).dividend (.number 2) =
        .ok (.term (.monomial "x" 6 1)) := by cbv
    obtain ⟨d, f, p', q', hd, hf, hp', hq', hsame⟩ := htrees hdivisor hsum hterm rfl
    obtain rfl := Except.ok.inj (hdividend.symm.trans hd)
    obtain rfl := Except.ok.inj (hdividend'.symm.trans hf)
    exact ⟨p', q', hp', hq', (hsame ⟨hspelled, hspelled⟩ hspelled).2
      (TermSum.truncatesEvenly_of_dvd (by decide)) (TermSum.truncatesEvenly_of_dvd (by decide))⟩
  · have hparse : Expr.parse 600 "x + x" =
        .ok (.additive .plus (.term (.named "x")) (.term (.named "x"))) := by cbv
    have hwords : (Cursor.ofText "x + x").words =
        [.identifier "x"] ++ .symbol .plus '+' :: [.identifier "x"] := by cbv
    have hderives : Derives .expression
        ([.identifier "x"] ++ .symbol .plus '+' :: [.identifier "x"])
        (.additive .plus (.term (.named "x")) (.term (.named "x"))) :=
      @Derives.binary (.symbol .plus '+') (.additive .plus) _ _ _ _ rfl
        ((Derives.name "x").widen (by decide)) ((Derives.name "x").widen (by decide))
    have hsum : (Expr.additive .plus (.term (.named "x")) (.term (.named "x"))).reduce =
        .ok (.term (.monomial "x" 2 1)) := by cbv
    have hdividend : (Expr.additive .plus (.term (.named "x")) (.term (.named "x"))).dividend
        (.ofInt 2) = .ok (.join .plus (.term (.named "x")) (.term (.named "x"))) := by cbv
    have hshown : (TermSum.term (.monomial "x" 2 1)).collected.shown = [⟨"x", 1, 2⟩] := by cbv
    have hrender : (TermSum.term (.monomial "x" 2 1)).render = "2*x" := by cbv
    have hsplits := splits_of_derives hderives
    rw [← hwords] at hsplits
    obtain ⟨d, hd, houtcomes⟩ := htexts hparse hsplits hsum (by rw [hshown]; decide)
    rw [hrender] at houtcomes
    obtain ⟨s, s', hs, hs', hsame⟩ := houtcomes 600 600 false false (by decide) (by decide)
    obtain rfl := Except.ok.inj (hdividend.symm.trans hd)
    rw [hs, hs']
    intro heq
    have heven := hsame.mp (Except.ok.inj heq) (some ("x", 1))
    exact absurd heven (by decide)

set_option maxRecDepth 20000 in
/-- Summands that do not truncate evenly show in the quotient, and terms whose names could not have
been read may look alike and differ. -/
theorem quotients_of_other_writings :
    (∃ p q p' q',
      (Expr.additive .plus (.term (.named "x")) (.term (.named "x"))).reduce = .ok p ∧
      (Expr.scaling .mul (.number 2) (.term (.named "x"))).reduce = .ok q ∧
      p.render = q.render ∧
      (Expr.scaling .div (.additive .plus (.term (.named "x")) (.term (.named "x")))
        (.number 2)).reduce = .ok p' ∧
      (Expr.scaling .div (.scaling .mul (.number 2) (.term (.named "x"))) (.number 2)).reduce =
        .ok q' ∧
      p'.render = "0" ∧ q'.render = "x") ∧
    (∃ p' q',
      (TermSum.term (.named "2*x")).render = (TermSum.term (.monomial "x" 2 1)).render ∧
      (Expr.scaling .div (.term (.named "2*x")) (.number 2)).reduce = .ok p' ∧
      (Expr.scaling .div (.term (.monomial "x" 2 1)) (.number 2)).reduce = .ok q' ∧
      p'.render = "0" ∧ q'.render = "x") ∧
    (evaluate 600 false "x + x").outcome = .ok "2*x" ∧
    (evaluate 600 false (quotientText "x + x" 2)).outcome = .ok "0" ∧
    (evaluate 600 false (quotientText "2*x" 2)).outcome = .ok "x" := by
  refine ⟨⟨.term (.monomial "x" 2 1), .term (.monomial "x" 2 1),
    .join .plus (.term (.monomial "x" 0 1)) (.term (.monomial "x" 0 1)),
    .term (.monomial "x" 1 1), ?_, ?_, rfl, ?_, ?_, ?_, ?_⟩,
    ⟨.term (.monomial "2*x" 0 1), .term (.monomial "x" 1 1), ?_, ?_, ?_, ?_, ?_⟩, ?_, ?_, ?_⟩
  all_goals cbv

end LaurentCalc
