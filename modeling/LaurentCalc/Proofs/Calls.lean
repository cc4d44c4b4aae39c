import LaurentCalc.Cursor.Call
import LaurentCalc.Proofs.EmbeddedTexts
import LaurentCalc.Proofs.UnknownCharacters

/-!
# Sequences of calls

Whatever a cursor is asked for, it only advances, one character at a time, and a call that
fails takes nothing back. So the character under it is always the one at its position, the
end of the text remains the end, and an unknown character is found again.
-/

namespace LaurentCalc.Cursor

set_option autoImplicit false

variable {c d : Cursor} {text : String} {calls : List Call} {u : UnknownCharacter}

theorem advance_iterate (n : Nat) (c : Cursor) :
    advance^[n] c = ⟨c.rest.drop n, c.position + n⟩ := by
  induction n generalizing c with
  | zero => rfl
  | succ n ih =>
    rw [Function.iterate_succ_apply, ih, advance, List.drop_drop, Nat.add_assoc, Nat.add_comm 1]

/-- Skipping a run advances once for each of its characters. -/
theorem skip_eq_iterate (p : Char → Bool) (c : Cursor) :
    c.skip p = advance^[(c.run p).length] c := by
  have hrest : c.rest.drop (c.run p).length = (c.skip p).rest := by
    conv_lhs => rw [c.rest_eq_run_append p]
    exact List.drop_left
  rw [advance_iterate, hrest]
  rfl

/-- The second cursor is reached from the first by advancing. -/
def LeadsTo (c d : Cursor) : Prop := ∃ n, d = advance^[n] c

namespace LeadsTo

theorem refl (c : Cursor) : c.LeadsTo c := ⟨0, rfl⟩

theorem trans {e : Cursor} (hcd : c.LeadsTo d) (hde : d.LeadsTo e) : c.LeadsTo e := by
  obtain ⟨m, rfl⟩ := hcd
  obtain ⟨n, rfl⟩ := hde
  exact ⟨n + m, (Function.iterate_add_apply advance n m c).symm⟩

theorem skip (p : Char → Bool) (c : Cursor) : c.LeadsTo (c.skip p) := ⟨_, skip_eq_iterate p c⟩

theorem advance (c : Cursor) : c.LeadsTo c.advance := ⟨1, rfl⟩

theorem position_le (h : c.LeadsTo d) : c.position ≤ d.position := by
  obtain ⟨n, rfl⟩ := h
  rw [advance_iterate]
  exact Nat.le_add_right c.position n

/-- Nothing comes after the end of the text. -/
theorem rest_eq_nil (h : c.LeadsTo d) (hend : c.rest = []) : d.rest = [] := by
  obtain ⟨n, rfl⟩ := h
  rw [advance_iterate, hend, List.drop_nil]

/-- In a text the characters ahead are those from the position of the cursor onward. -/
theorem getElem?_rest (h : (ofText text).LeadsTo c) (k : Nat) :
    c.rest[k]? = text.toList[c.position + k]? := by
  obtain ⟨n, rfl⟩ := h
  rw [advance_iterate, List.getElem?_drop]
  exact congrArg (text.toList[· + k]?) (Nat.zero_add n).symm

theorem current?_eq (h : (ofText text).LeadsTo c) : c.current? = text.toList[c.position]? := by
  rw [current?, List.head?_eq_getElem?]
  exact h.getElem?_rest 0

/-- Skipping blanks passes nothing else. -/
theorem isBlank_passed (h : (ofText text).LeadsTo c) {i : Nat} (hstart : c.position ≤ i)
    (hstop : i < c.skipBlanks.position) :
    ∃ ch, text.toList[i]? = some ch ∧ Text.isBlank ch = true := by
  obtain ⟨k, rfl⟩ := Nat.exists_eq_add_of_le hstart
  have hk : k < (c.run Text.isBlank).length := Nat.lt_of_add_lt_add_left hstop
  refine ⟨(c.run Text.isBlank)[k], ?_, of_mem_run _ (List.getElem_mem hk)⟩
  rw [← h.getElem?_rest, c.rest_eq_run_append Text.isBlank, List.getElem?_append_left hk,
    List.getElem?_eq_getElem hk]

end LeadsTo

theorem Reads.leadsTo {outcome : Except UnknownCharacter Token} (h : c.Reads outcome d) :
    c.LeadsTo d := by
  cases h with
  | endOfText hrest => exact .refl c
  | integer hrest hdigit => exact .skip Text.isDigit c
  | identifier hrest hletter => exact .skip Text.isLetter c
  | symbol hrest hsymbol => exact .advance c
  | unknown hrest hdigit hletter hsymbol => exact .refl c

theorem leadsTo_next (c : Cursor) : c.LeadsTo c.next.2 :=
  (LeadsTo.skip Text.isBlank c).trans (reads_of_tokenHere rfl).leadsTo

/-- Every call advances the cursor, however often, and does nothing else to it. -/
theorem leadsTo_perform (c : Cursor) (call : Call) : c.LeadsTo (c.perform call).2 := by
  cases call with
  | advance => exact .advance c
  | skipBlanks => exact .skip Text.isBlank c
  | integer =>
    rw [perform]
    split
    · exact .skip Text.isDigit c
    · exact .refl c
  | identifier => exact .skip Text.isLetter c
  | next =>
    have hnext := c.leadsTo_next
    rw [perform]
    split
    · next h => rwa [h] at hnext
    · next h => rwa [h] at hnext

theorem leadsTo_afterCalls (c : Cursor) (calls : List Call) : c.LeadsTo (c.afterCalls calls) := by
  induction calls generalizing c with
  | nil => exact .refl c
  | cons call calls ih => exact (c.leadsTo_perform call).trans (ih (c.perform call).2)

theorem next_of_perform_token {t : Token} (h : c.perform .next = (.token t, d)) :
    c.next = (.ok t, d) := by
  rw [perform] at h
  split at h
  · next hnext =>
    cases h
    exact hnext
  · cases h

theorem next_of_perform_unknown (h : c.perform .next = (.unknown u, d)) :
    c.next = (.error u, d) := by
  rw [perform] at h
  split at h
  · cases h
  · next hnext =>
    cases h
    exact hnext

theorem eq_of_perform_integer (h : c.perform .integer = (.noDigits, d)) : d = c := by
  rw [perform] at h
  split at h
  · cases h
  · cases h
    rfl

theorem perform_next_of_rest_eq_nil (h : c.rest = []) :
    c.perform .next = (.token .endOfText, c) := by
  obtain ⟨rest, position⟩ := c
  subst h
  rfl

/-- Where the end of the text has been read, nothing is left. -/
theorem rest_eq_nil_of_next (h : c.next = (.ok .endOfText, d)) : d.rest = [] := by
  cases reads_of_tokenHere h with
  | endOfText hrest => exact hrest

/-- An unknown character stays under the cursor, with nothing but blanks passed before it. -/
theorem stops_at_unknown (h : c.next = (.error u, d)) :
    d = c.skipBlanks ∧ d.current? = some u.character ∧ d.position = u.position ∧
      d.next = (.error u, d) := by
  have hd : d = c.skipBlanks ∧ d.current? = some u.character ∧ d.position = u.position := by
    cases reads_of_tokenHere h with
    | unknown hrest hdigit hletter hsymbol =>
      exact ⟨rfl, congrArg List.head? hrest, rfl⟩
  obtain ⟨rfl, hcurrent, hposition⟩ := hd
  have hskip : c.skipBlanks.skipBlanks = c.skipBlanks :=
    skip_of_head (c.head_rest_skip Text.isBlank)
  refine ⟨rfl, hcurrent, hposition, ?_⟩
  rw [next, hskip]
  exact h

/-- At any time, whichever calls were made before and whether they failed or not, the character
under the cursor is the one at its position, if there is one, and no call moves the cursor back.
Once the end of the text has been read, it is read again after any further calls. Where no digit
stands, no number is read and the cursor stays; a character that begins no token is found again at
once, since it stays under the cursor, which has passed nothing but blanks. -/
theorem calls_consistent {calls : List Call} (hc : (ofText text).afterCalls calls = c) :
    c.current? = text.toList[c.position]? ∧
    (∀ call, c.position ≤ (c.perform call).2.position) ∧
    (∀ d, c.perform .next = (.token .endOfText, d) → ∀ more,
      ((d.afterCalls more).perform .next).1 = .token .endOfText) ∧
    (∀ d, c.perform .integer = (.noDigits, d) → d = c) ∧
    (∀ u d, c.perform .next = (.unknown u, d) →
      d.perform .next = (.unknown u, d) ∧ d.position = u.position ∧
      text.toList[u.position]? = some u.character ∧
      ∀ i, c.position ≤ i → i < u.position →
        ∃ ch, text.toList[i]? = some ch ∧ Text.isBlank ch = true) := by
  have hleads : (ofText text).LeadsTo c := hc ▸ leadsTo_afterCalls _ calls
  refine ⟨hleads.current?_eq, fun call => (c.leadsTo_perform call).position_le, ?_,
    fun d => eq_of_perform_integer, ?_⟩
  · intro d hend more
    have hrest : (d.afterCalls more).rest = [] :=
      (leadsTo_afterCalls d more).rest_eq_nil (rest_eq_nil_of_next (next_of_perform_token hend))
    rw [perform_next_of_rest_eq_nil hrest]
  · intro u d hunknown
    obtain ⟨rfl, hcurrent, hposition, hagain⟩ := stops_at_unknown (next_of_perform_unknown hunknown)
    have hreached : (ofText text).LeadsTo c.skipBlanks := hleads.trans (.skip Text.isBlank c)
    refine ⟨?_, hposition, ?_, ?_⟩
    · rw [perform, hagain]
    · rw [← hposition, ← hreached.current?_eq, hcurrent]
    · intro i hstart hstop
      rw [← hposition] at hstop
      exact hleads.isBlank_passed hstart hstop

set_option maxRecDepth 20000 in
/-- A name, a number and a failed call for another number, and then an unknown character. -/
theorem calls_consistent_at_unknown_character :
    (ofText "a 12 $ b").afterCalls [.identifier, .next, .identifier, .integer] =
      ⟨[' ', '$', ' ', 'b'], 4⟩ ∧
    (Cursor.mk [' ', '$', ' ', 'b'] 4).current? = "a 12 $ b".toList[4]? ∧
    (Cursor.mk [' ', '$', ' ', 'b'] 4).perform .next =
      (.unknown ⟨'$', 5⟩, ⟨['$', ' ', 'b'], 5⟩) ∧
    (Cursor.mk ['$', ' ', 'b'] 5).perform .next = (.unknown ⟨'$', 5⟩, ⟨['$', ' ', 'b'], 5⟩) := by
  have hc : (ofText "a 12 $ b").afterCalls [.identifier, .next, .identifier, .integer] =
      ⟨[' ', '$', ' ', 'b'], 4⟩ := rfl
  have hnext : (Cursor.mk [' ', '$', ' ', 'b'] 4).perform .next =
      (.unknown ⟨'$', 5⟩, ⟨['$', ' ', 'b'], 5⟩) := rfl
  obtain ⟨hcurrent, -, -, -, hunknown⟩ := calls_consistent hc
  exact ⟨hc, hcurrent, hnext, (hunknown _ _ hnext).1⟩

end LaurentCalc.Cursor
