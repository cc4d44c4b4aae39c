import LaurentCalc.Proofs.Writing

/-!
# Canonical phrases

The expression that a canonical text is read as: the first power carries its minus
sign on the coefficient, or on itself where the coefficient is left out, and the
other summands are added or subtracted one after the other.
-/

namespace LaurentCalc

set_option autoImplicit false

/-- An integer as an expression: a natural number, under a minus sign where it is negative. -/
def Expr.ofInt (n : Int) : Expr :=
  if n < 0 then .unary (.sign .minus) (.number n.natAbs) else .number n.natAbs

/-- A summand behind the first one, its sign apart. -/
structure Summand where
  negative : Bool
  body : String
  phrase : Expr

namespace Summand

/-- The sign with which the summand joins the ones before it. -/
def sign (s : Summand) : Sign := if s.negative then .minus else .plus

def text (s : Summand) : String := summandText false s.negative s.body

end Summand

/-- Further summands added one after the other. -/
def Expr.plusSummands (first : Expr) (ss : List Summand) : Expr :=
  ss.foldl (fun sum s => .additive s.sign sum s.phrase) first

namespace Entry

def powerPhrase (entry : Entry) : Expr :=
  if entry.exponent = 1 then .term (.named entry.name)
  else .binary .power (.term (.named entry.name)) (.ofInt entry.exponent)

def unsignedPhrase (entry : Entry) : Expr :=
  if entry.coefficient.natAbs = 1 then entry.powerPhrase
  else .scaling .mul (.number entry.coefficient.natAbs) entry.powerPhrase

def leadingPhrase (entry : Entry) : Expr :=
  if entry.coefficient.natAbs = 1 then
    if entry.coefficient < 0 then .unary (.sign .minus) entry.powerPhrase else entry.powerPhrase
  else .scaling .mul (.ofInt entry.coefficient) entry.powerPhrase

def summand (entry : Entry) : Summand :=
  ⟨entry.coefficient < 0, unsignedText entry.name entry.exponent entry.coefficient,
    entry.unsignedPhrase⟩

end Entry

namespace Collected

def constantSummands (constant : Int) : List Summand :=
  if constant = 0 then [] else [⟨constant < 0, constant.natAbs.repr, .number constant.natAbs⟩]

/-- The expression that the canonical text is read as. -/
def phrase (c : Collected) : Expr :=
  match c.shown with
  | [] => .ofInt c.total
  | first :: rest =>
    first.leadingPhrase.plusSummands (rest.map Entry.summand ++ constantSummands c.total)

theorem forall_mem_summands {P : Summand → Prop} {rest : List Entry} {constant : Int}
    (hentries : ∀ entry ∈ rest, P entry.summand)
    (hconstant : P ⟨constant < 0, constant.natAbs.repr, .number constant.natAbs⟩) :
    ∀ s ∈ rest.map Entry.summand ++ constantSummands constant, P s := by
  rw [List.forall_mem_append, List.forall_mem_map]
  refine ⟨hentries, ?_⟩
  unfold constantSummands
  split
  · exact List.forall_mem_nil P
  · exact List.forall_mem_singleton.mpr hconstant

end Collected

section Writing

theorem Writes.ofInt (n : Int) : Writes .factor n.repr.toList (.ofInt n) := by
  unfold Expr.ofInt
  cases n with
  | ofNat m =>
    rw [if_neg (by simp)]
    exact (Writes.integer m).widen (by decide)
  | negSucc m =>
    rw [if_pos (Int.negSucc_lt_zero m), Int.repr, String.toList_append]
    exact Writes.sign .minus rfl ((Writes.integer (m + 1)).widen (by decide))

namespace Entry

variable {entry : Entry}

theorem writes_powerPhrase (hname : Spelled entry.name) :
    Writes .factor (powerText entry.name entry.exponent).toList entry.powerPhrase := by
  unfold powerText powerPhrase
  split
  · exact (Writes.name hname).widen (by decide)
  · rw [String.append_assoc, String.toList_append, String.toList_append]
    exact Writes.binary .power rfl rfl (Writes.name hname) (Writes.ofInt entry.exponent)

theorem writes_unsignedPhrase (hname : Spelled entry.name) :
    Writes .term (unsignedText entry.name entry.exponent entry.coefficient).toList
      entry.unsignedPhrase := by
  have hpower := writes_powerPhrase hname
  unfold unsignedText unsignedPhrase
  split
  · exact hpower.widen (by decide)
  · rw [String.append_assoc, String.toList_append, String.toList_append]
    exact Writes.binary (.scaling .mul) rfl rfl ((Writes.integer _).widen (by decide)) hpower

theorem writes_leadingPhrase (hname : Spelled entry.name) :
    Writes .term (entry.text true).toList entry.leadingPhrase := by
  have hpower := writes_powerPhrase hname
  unfold text termText unsignedText leadingPhrase
  by_cases hone : entry.coefficient.natAbs = 1
  · rw [if_pos hone, if_pos hone]
    by_cases hneg : entry.coefficient < 0
    · rw [if_pos hneg, decide_eq_true hneg, summandText, String.toList_append]
      exact (Writes.sign .minus rfl hpower).widen (by decide)
    · rw [if_neg hneg, decide_eq_false hneg]
      exact hpower.widen (by decide)
  · rw [if_neg hone, if_neg hone]
    have hsigned : summandText true (entry.coefficient < 0)
        (entry.coefficient.natAbs.repr ++ "*" ++ powerText entry.name entry.exponent) =
        entry.coefficient.repr ++ ("*" ++ powerText entry.name entry.exponent) := by
      rw [String.append_assoc]
      cases entry.coefficient with
      | ofNat m => rfl
      | negSucc m =>
        rw [decide_eq_true (Int.negSucc_lt_zero m), summandText, Int.repr, String.append_assoc]
        rfl
    rw [hsigned, String.toList_append, String.toList_append]
    exact Writes.binary (.scaling .mul) rfl rfl ((Writes.ofInt _).widen (by decide)) hpower

end Entry

theorem Writes.plusSummands {first : String} {e : Expr} {ss : List Summand}
    (hfirst : Writes .expression first.toList e)
    (hss : ∀ s ∈ ss, Writes .term s.body.toList s.phrase) :
    Writes .expression (" ".intercalate (first :: ss.map Summand.text)).toList
      (e.plusSummands ss) := by
  induction ss generalizing first e with
  | nil =>
    rw [List.map_nil, String.intercalate_singleton]
    exact hfirst
  | cons s ss ih =>
    have hbody := hss s List.mem_cons_self
    have hjoined : Writes .expression (first ++ " " ++ s.text).toList
        (.additive s.sign e s.phrase) := by
      rw [String.append_assoc, String.toList_append, String.toList_append]
      unfold Summand.text Summand.sign
      cases s.negative with
      | false =>
        rw [summandText, String.toList_append]
        exact Writes.binary_spaced (.additive .plus) rfl rfl hfirst hbody
      | true =>
        rw [summandText, String.toList_append]
        exact Writes.binary_spaced (.additive .minus) rfl rfl hfirst hbody
    rw [List.map_cons, String.intercalate_cons_cons, ← String.intercalate_cons_append]
    exact ih hjoined fun s' hs' => hss s' (List.mem_cons_of_mem s hs')

namespace Collected

theorem map_text_constantSummands (constant : Int) :
    (constantSummands constant).map Summand.text = constantText constant := by
  unfold constantSummands constantText
  split <;> rfl

/-- The canonical text is read as the canonical phrase. -/
theorem writes_phrase {c : Collected} (hnames : ∀ entry ∈ c.entries, Spelled entry.name) :
    Writes .expression c.text.toList c.phrase := by
  have hshown : ∀ entry ∈ c.shown, Spelled entry.name := fun entry hentry =>
    hnames entry (List.mem_of_mem_filter hentry)
  unfold text phrase
  cases hc : c.shown with
  | nil => exact (Writes.ofInt c.total).widen (by decide)
  | cons first rest =>
    rw [hc] at hshown
    have htexts : rest.map (Entry.text false) ++ constantText c.total =
        (rest.map Entry.summand ++ constantSummands c.total).map Summand.text := by
      rw [List.map_append, List.map_map, map_text_constantSummands]
      rfl
    simp only [List.cons_append]
    rw [htexts]
    apply Writes.plusSummands
    · exact (Entry.writes_leadingPhrase (hshown first List.mem_cons_self)).widen (by decide)
    · apply forall_mem_summands
      · intro entry hentry
        exact Entry.writes_unsignedPhrase (hshown entry (List.mem_cons_of_mem first hentry))
      · exact (Writes.integer _).widen (by decide)

end Collected

end Writing

end LaurentCalc
