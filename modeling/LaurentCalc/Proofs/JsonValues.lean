import LaurentCalc.Proofs.JsonTokens
import LaurentCalc.Proofs.LoadedSettings

/-!
# Written values

A value is read back from its text, in every layout that puts nothing but blanks and commas
between the tokens. What is written for a value takes the reader from any place where a value
may begin to the place behind that value, so the items and members are read one by one into
the container that is open.
-/

namespace LaurentCalc.Json

set_option autoImplicit false

/-- Only blanks stand around the items, and a comma with blanks behind it between them. -/
structure Layout.Spaced (layout : Layout) : Prop where
  before : ∀ depth, ∀ c ∈ layout.before depth, isBlank c = true
  between : ∀ depth, ∃ blanks, layout.between depth = ',' :: blanks ∧ ∀ c ∈ blanks, isBlank c = true
  after : ∀ depth, ∀ c ∈ layout.after depth, isBlank c = true

theorem isBlank_of_mem_lineAt {c : Char} {depth : Nat} (h : c ∈ lineAt depth) :
    isBlank c = true := by
  rcases List.mem_cons.mp h with rfl | h
  · rfl
  · rw [List.eq_of_mem_replicate h]
    rfl

theorem spaced_indented : indented.Spaced where
  before _ _ h := isBlank_of_mem_lineAt h
  between _ := ⟨_, rfl, fun _ h => isBlank_of_mem_lineAt h⟩
  after _ _ h := isBlank_of_mem_lineAt h

/-- A value without floating-point numbers in which no object has a key twice. -/
inductive Value.Plain : Value → Prop where
  | null : Plain .null
  | bool (b : Bool) : Plain (.bool b)
  | integer (n : Int) : Plain (.integer n)
  | string (s : String) : Plain (.string s)
  | array {items : List Value} (hitems : ∀ v ∈ items, v.Plain) : Plain (.array items)
  | object {members : Members} (hkeys : members.Distinct)
    (hmembers : ∀ member ∈ members, member.2.Plain) : Plain (.object members)

def Awaited.IsValue : Awaited → Prop
  | .value | .valueOrEnd => True
  | _ => False

def Awaited.IsKey : Awaited → Prop
  | .key | .keyOrEnd => True
  | _ => False

namespace Members

variable {key : String} {v : Value} {base others : Members}

theorem put_of_not_mem (h : key ∉ base.map Prod.fst) : base.put key v = base ++ [(key, v)] := by
  induction base with
  | nil => rfl
  | cons member base ih =>
    rw [List.map_cons, List.mem_cons, not_or] at h
    rw [put, if_neg (Ne.symm h.1), ih h.2, List.cons_append]

theorem put_of_mem (hbase : base.Distinct) (h : key ∈ base.map Prod.fst) :
    base.put key v =
      base.map fun member => if member.1 = key then (key, v) else member := by
  induction base with
  | nil => cases h
  | cons member base ih =>
    obtain ⟨hmember, hbase⟩ := List.nodup_cons.mp hbase
    rw [put, List.map_cons]
    by_cases hkey : member.1 = key
    · -- The key stands nowhere else, so that the rest stays as it is.
      have hrest : base.map (fun member => if member.1 = key then (key, v) else member) =
          base.map id := by
        refine List.map_congr_left fun other hother => if_neg fun heq => hmember ?_
        rw [hkey, ← heq]
        exact List.mem_map_of_mem hother
      rw [if_pos hkey, if_pos hkey, hrest, List.map_id]
    · rw [List.map_cons, List.mem_cons] at h
      rw [if_neg hkey, if_neg hkey, ih hbase (h.resolve_left (Ne.symm hkey))]

/-- The old members keep their places, with the new values, and the new keys follow in their own
order. -/
theorem override_eq (hbase : base.Distinct) (hothers : others.Distinct) :
    override base others =
      base.map (fun member => (member.1, (get? member.1 others).getD member.2)) ++
        others.filter fun member => member.1 ∉ base.map Prod.fst := by
  induction others generalizing base with
  | nil =>
    have hsame : base.map (fun member => (member.1, (get? member.1 []).getD member.2)) = base :=
      List.map_id base
    rw [hsame, List.filter_nil, List.append_nil]
    rfl
  | cons first rest ih =>
    obtain ⟨key, v⟩ := first
    obtain ⟨hkey, hrest⟩ := List.nodup_cons.mp hothers
    have hfold : override base ((key, v) :: rest) = override (base.put key v) rest := rfl
    have hnone : get? key rest = none := get?_eq_none hkey
    rw [hfold, ih (hbase.put key v) hrest, keys_put]
    by_cases hmem : key ∈ base.map Prod.fst
    · rw [if_pos hmem, put_of_mem hbase hmem, List.map_map,
        List.filter_cons_of_neg (by simpa using hmem)]
      congr 1
      refine List.map_congr_left fun member _ => ?_
      by_cases hsame : member.1 = key
      · simp [get?_cons, hsame, hnone]
      · simp [get?_cons, hsame, Ne.symm hsame]
    · have hold : base.map (fun member => (member.1, (get? member.1 rest).getD member.2)) =
          base.map fun member => (member.1, (get? member.1 ((key, v) :: rest)).getD member.2) := by
        refine List.map_congr_left fun member hmember => ?_
        have hne : key ≠ member.1 := fun heq => hmem (heq ▸ List.mem_map_of_mem hmember)
        rw [get?_cons, if_neg hne]
      have hnew : rest.filter (fun member => member.1 ∉ base.map Prod.fst ++ [key]) =
          rest.filter fun member => member.1 ∉ base.map Prod.fst := by
        refine List.filter_congr fun member hmember => ?_
        have hne : member.1 ≠ key := ne_of_mem_of_not_mem (List.mem_map_of_mem hmember) hkey
        simp [hne]
      rw [if_neg hmem, put_of_not_mem hmem, List.map_append, List.map_singleton, hold, hnew, hnone,
        List.filter_cons_of_pos (by simpa using hmem), List.append_assoc]
      rfl

/-- Members that are put into an empty object stay in order. -/
theorem override_nil (hothers : others.Distinct) : override [] others = others := by
  rw [override_eq distinct_nil hothers, List.map_nil, List.nil_append]
  exact List.filter_eq_self.mpr fun _ _ => rfl

end Members

section Depths

variable {v : Value} {members : Members} {member : String × Value}

theorem depth_le_membersDepth (h : member ∈ members) :
    member.2.depth ≤ Value.membersDepth members := by
  induction members with
  | nil => cases h
  | cons first members ih =>
    obtain ⟨key, w⟩ := first
    rw [Value.membersDepth]
    rcases List.mem_cons.mp h with rfl | h
    · exact Nat.le_max_left _ _
    · exact Nat.le_trans (ih h) (Nat.le_max_right _ _)

end Depths

section Ends

variable {blanks rest : List Char} {c : Char}

theorem EndsNumeral.cons (hc : c ∈ [',', ']', '}']) (rest : List Char) :
    EndsNumeral (c :: rest) := by
  rintro d hd
  obtain rfl := Option.some.inj hd
  simp only [List.mem_cons, List.not_mem_nil, or_false] at hc
  rcases hc with rfl | rfl | rfl
  all_goals decide

theorem EndsNumeral.behind_blanks (hblanks : ∀ c ∈ blanks, isBlank c = true)
    (h : EndsNumeral rest) :
    EndsNumeral (blanks ++ rest) := by
  cases blanks with
  | nil => exact h
  | cons b blanks =>
    rintro d hd
    obtain rfl := Option.some.inj hd
    have hb := hblanks b List.mem_cons_self
    simp only [isBlank, Bool.or_eq_true, decide_eq_true_eq] at hb
    rcases hb with ((rfl | rfl) | rfl) | rfl
    all_goals decide

end Ends

namespace Reading

variable {limit depth : Nat} {r next : Reading} {token : Token} {cs after blanks rest : List Char}
variable {containers : List Container} {awaited : Awaited} {layout : Layout} {v : Value}

theorem finish_blanks (hblanks : ∀ c ∈ blanks, isBlank c = true) (r : Reading) (cs : List Char) :
    r.finish limit (blanks ++ cs) = r.finish limit cs := by
  induction blanks with
  | nil => rfl
  | cons b blanks ih =>
    obtain ⟨hb, hrest⟩ := List.forall_mem_cons.mp hblanks
    rw [List.cons_append, finish, if_pos hb, ih hrest]

theorem finish_space (r : Reading) (cs : List Char) :
    r.finish limit (' ' :: cs) = r.finish limit cs :=
  finish_blanks (fun _ h => List.mem_singleton.mp h ▸ rfl) r cs

/-- A token that begins a value does so wherever a value may begin. -/
theorem step_begin (hawaited : awaited.IsValue) (htoken : token ≠ .closeBracket) :
    step limit ⟨containers, awaited⟩ token = beginValue limit containers token := by
  cases awaited with
  | value => rfl
  | valueOrEnd =>
    unfold step
    split
    · rfl
    · exact absurd rfl htoken
    · rfl
    all_goals contradiction
  | _ => cases hawaited

theorem enter_of_lt {container : Container} (h : containers.length < limit) :
    enter limit containers container awaited = .ok ⟨container :: containers, awaited⟩ := if_pos h

end Reading

/-- What is written for a value takes the reader from where a value may begin to behind it. -/
def Value.ReadsBack (layout : Layout) (limit : Nat) (v : Value) : Prop :=
  ∀ (depth : Nat) (containers : List Container) (awaited : Awaited) (rest : List Char),
    awaited.IsValue → v.depth + containers.length ≤ limit → EndsNumeral rest →
      Reading.finish limit ⟨containers, awaited⟩ (v.text standard layout depth ++ rest) =
        Reading.finish limit ⟨containers, .separator v⟩ rest

section Values

variable {limit depth : Nat} {layout : Layout} {v : Value} {items : List Value} {members : Members}
variable {containers : List Container} {rest : List Char} {key : String}

/-- A value of a single token is read back. -/
theorem readsBack_of_readToken (token : Token) (htoken : token ≠ .closeBracket)
    (hbegin : ∀ containers, Reading.beginValue limit containers token =
      .ok ⟨containers, .separator v⟩)
    (hread : ∀ depth rest, EndsNumeral rest →
      readToken (v.text standard layout depth ++ rest) = some (token, rest)) :
    v.ReadsBack layout limit := by
  intro depth containers awaited rest hawaited _ hends
  apply Reading.finish_of_readToken (hread depth rest hends)
  rw [Reading.step_begin hawaited htoken, hbegin]

theorem readsBack_null : Value.null.ReadsBack layout limit :=
  readsBack_of_readToken (.scalar .null) Token.noConfusion (fun _ => rfl) fun _ _ _ => rfl

theorem readsBack_bool (b : Bool) : (Value.bool b).ReadsBack layout limit := by
  cases b with
  | false =>
    exact readsBack_of_readToken (.scalar (.bool false)) Token.noConfusion (fun _ => rfl)
      fun _ _ _ => rfl
  | true =>
    exact readsBack_of_readToken (.scalar (.bool true)) Token.noConfusion (fun _ => rfl)
      fun _ _ _ => rfl

theorem readsBack_integer (n : Int) : (Value.integer n).ReadsBack layout limit :=
  readsBack_of_readToken _ Token.noConfusion (fun _ => rfl) fun _ _ hends => by
    rw [Value.text]
    exact readToken_repr n hends

theorem readsBack_string (s : String) : (Value.string s).ReadsBack layout limit :=
  readsBack_of_readToken _ Token.noConfusion (fun _ => rfl) fun _ rest _ => by
    rw [Value.text]
    exact readToken_quotedString s rest

theorem endsNumeral_itemsText (hlayout : layout.Spaced) (items : List Value) (depth : Nat)
    (rest : List Char) :
    EndsNumeral (itemsText standard layout depth items ++ (layout.after depth ++ ']' :: rest)) := by
  cases items with
  | nil =>
    rw [itemsText, List.nil_append]
    exact (EndsNumeral.cons (by decide) rest).behind_blanks (hlayout.after depth)
  | cons v items =>
    obtain ⟨blanks, hbetween, -⟩ := hlayout.between depth
    rw [itemsText, hbetween]
    exact .cons (by decide) _

theorem endsNumeral_membersText (hlayout : layout.Spaced) (members : Members) (depth : Nat)
    (rest : List Char) :
    EndsNumeral
      (membersText standard layout depth members ++ (layout.after depth ++ '}' :: rest)) := by
  cases members with
  | nil =>
    rw [membersText, List.nil_append]
    exact (EndsNumeral.cons (by decide) rest).behind_blanks (hlayout.after depth)
  | cons member members =>
    obtain ⟨blanks, hbetween, -⟩ := hlayout.between depth
    rw [membersText, hbetween]
    exact .cons (by decide) _

/-- The items after one that has been read are read into the array, up to its end. -/
theorem finish_itemsText (hlayout : layout.Spaced) (hitems : ∀ w ∈ items, w.ReadsBack layout limit)
    (depth : Nat) (containers : List Container) (rest : List Char)
    (hdepth : Value.itemsDepth items + containers.length < limit) (done : List Value) (v : Value) :
    Reading.finish limit ⟨.array done :: containers, .separator v⟩
        (itemsText standard layout depth items ++ (layout.after depth ++ ']' :: rest)) =
      Reading.finish limit ⟨containers, .separator (.array (done.reverse ++ v :: items))⟩ rest := by
  -- a comma puts the last item among the items done, which stand in reverse
  induction items generalizing done v with
  | nil =>
    have hclose : Reading.step limit ⟨.array done :: containers, .separator v⟩ .closeBracket =
        .ok ⟨containers, .separator (.array (v :: done).reverse)⟩ := rfl
    rw [itemsText, List.nil_append, Reading.finish_blanks (hlayout.after depth),
      Reading.finish_of_readToken rfl hclose, List.reverse_cons]
  | cons w items ih =>
    obtain ⟨blanks, hbetween, hblanks⟩ := hlayout.between depth
    obtain ⟨hw, hrest⟩ := List.forall_mem_cons.mp hitems
    rw [Value.itemsDepth] at hdepth
    have hcomma : Reading.step limit ⟨.array done :: containers, .separator v⟩ .comma =
        .ok ⟨.array (v :: done) :: containers, .value⟩ := rfl
    have hends := endsNumeral_itemsText hlayout items depth rest
    have hvalue := hw (depth + 1) (.array (v :: done) :: containers) .value _ trivial
      (by rw [List.length_cons]; omega) hends
    rw [itemsText, hbetween, List.cons_append, List.cons_append, List.cons_append,
      Reading.finish_of_readToken rfl hcomma, List.append_assoc, List.append_assoc,
      Reading.finish_blanks hblanks, hvalue, ih hrest (by omega) (v :: done) w, List.reverse_cons,
      List.append_assoc, List.singleton_append]

theorem readsBack_array (hlayout : layout.Spaced) (hitems : ∀ w ∈ items, w.ReadsBack layout limit) :
    (Value.array items).ReadsBack layout limit := by
  intro depth containers awaited rest hawaited hdepth hends
  rw [Value.depth] at hdepth
  have hopen : Reading.step limit ⟨containers, awaited⟩ .openBracket =
      .ok ⟨.array [] :: containers, .valueOrEnd⟩ := by
    rw [Reading.step_begin hawaited Token.noConfusion]
    exact Reading.enter_of_lt (by omega)
  cases items with
  | nil =>
    have hclose : Reading.step limit ⟨.array [] :: containers, .valueOrEnd⟩ .closeBracket =
        .ok ⟨containers, .separator (.array [])⟩ := rfl
    rw [Value.text, List.cons_append, Reading.finish_of_readToken rfl hopen, List.singleton_append,
      Reading.finish_of_readToken rfl hclose]
  | cons v items =>
    obtain ⟨hv, hrest⟩ := List.forall_mem_cons.mp hitems
    rw [Value.itemsDepth] at hdepth
    have hvalue := hv (depth + 1) (.array [] :: containers) .valueOrEnd _ trivial
      (by rw [List.length_cons]; omega) (endsNumeral_itemsText hlayout items depth rest)
    have hitemsText := finish_itemsText hlayout hrest depth containers rest (by omega) [] v
    rw [Value.text]
    simp only [List.cons_append, List.append_assoc, List.nil_append]
    rw [Reading.finish_of_readToken rfl hopen, Reading.finish_blanks (hlayout.before depth),
      hvalue, hitemsText]
    rfl

/-- A member is read into the object up to its value. -/
theorem finish_member (awaited : Awaited) (hawaited : awaited.IsKey)
    (hv : v.ReadsBack layout limit) (depth : Nat) (containers : List Container)
    (hdepth : v.depth + containers.length < limit) (hends : EndsNumeral rest) (done : Members)
    (key : String) :
    Reading.finish limit ⟨.object done :: containers, awaited⟩
        (standard.quote key ++ ':' :: ' ' :: (v.text standard layout depth ++ rest)) =
      Reading.finish limit ⟨.member done key :: containers, .separator v⟩ rest := by
  have hkey : Reading.step limit ⟨.object done :: containers, awaited⟩ (.string key) =
      .ok ⟨.object done :: containers, .colon key⟩ := by
    cases awaited with
    | key => rfl
    | keyOrEnd => rfl
    | _ => cases hawaited
  have hcolon : Reading.step limit ⟨.object done :: containers, .colon key⟩ .colon =
      .ok ⟨.member done key :: containers, .value⟩ := rfl
  have hvalue := hv depth (.member done key :: containers) .value rest trivial
    (by rw [List.length_cons]; omega) hends
  have hquoted : ∀ cs, readToken (standard.quote key ++ cs) = some (.string key, cs) :=
    readToken_quotedString key
  rw [Reading.finish_of_readToken (hquoted _) hkey, Reading.finish_of_readToken rfl hcolon,
    Reading.finish_space, hvalue]

/-- The members after one that has been read are put into the object, up to its end. -/
theorem finish_membersText (hlayout : layout.Spaced)
    (hmembers : ∀ member ∈ members, member.2.ReadsBack layout limit) (depth : Nat)
    (containers : List Container) (rest : List Char)
    (hdepth : Value.membersDepth members + containers.length < limit) (done : Members)
    (key : String) (v : Value) :
    Reading.finish limit ⟨.member done key :: containers, .separator v⟩
        (membersText standard layout depth members ++ (layout.after depth ++ '}' :: rest)) =
      Reading.finish limit
        ⟨containers, .separator (.object (Members.override done ((key, v) :: members)))⟩ rest := by
  -- a comma puts the last member among the members done, over one with the same key
  induction members generalizing done key v with
  | nil =>
    have hclose : Reading.step limit ⟨.member done key :: containers, .separator v⟩ .closeBrace =
        .ok ⟨containers, .separator (.object (Members.put key v done))⟩ := rfl
    rw [membersText, List.nil_append, Reading.finish_blanks (hlayout.after depth),
      Reading.finish_of_readToken rfl hclose]
    rfl
  | cons member members ih =>
    obtain ⟨key', w⟩ := member
    obtain ⟨blanks, hbetween, hblanks⟩ := hlayout.between depth
    obtain ⟨hw, hrest⟩ : w.ReadsBack layout limit ∧ ∀ w ∈ members, w.2.ReadsBack layout limit :=
      List.forall_mem_cons.mp hmembers
    rw [Value.membersDepth] at hdepth
    have hcomma : Reading.step limit ⟨.member done key :: containers, .separator v⟩ .comma =
        .ok ⟨.object (Members.put key v done) :: containers, .key⟩ := rfl
    have hmember := finish_member .key trivial hw (depth + 1) containers (by omega)
      (endsNumeral_membersText hlayout members depth rest) (Members.put key v done) key'
    rw [membersText]
    simp only [hbetween, List.cons_append, List.append_assoc]
    rw [Reading.finish_of_readToken rfl hcomma, Reading.finish_blanks hblanks, hmember,
      ih hrest (by omega)]
    rfl

theorem readsBack_object (hlayout : layout.Spaced) (hkeys : members.Distinct)
    (hmembers : ∀ member ∈ members, member.2.ReadsBack layout limit) :
    (Value.object members).ReadsBack layout limit := by
  intro depth containers awaited rest hawaited hdepth hends
  rw [Value.depth] at hdepth
  have hopen : Reading.step limit ⟨containers, awaited⟩ .openBrace =
      .ok ⟨.object [] :: containers, .keyOrEnd⟩ := by
    rw [Reading.step_begin hawaited Token.noConfusion]
    exact Reading.enter_of_lt (by omega)
  cases members with
  | nil =>
    have hclose : Reading.step limit ⟨.object [] :: containers, .keyOrEnd⟩ .closeBrace =
        .ok ⟨containers, .separator (.object [])⟩ := rfl
    rw [Value.text, List.cons_append, Reading.finish_of_readToken rfl hopen, List.singleton_append,
      Reading.finish_of_readToken rfl hclose]
  | cons member members =>
    obtain ⟨key, v⟩ := member
    obtain ⟨hv, hrest⟩ : v.ReadsBack layout limit ∧ ∀ w ∈ members, w.2.ReadsBack layout limit :=
      List.forall_mem_cons.mp hmembers
    rw [Value.membersDepth] at hdepth
    have hmember := finish_member .keyOrEnd trivial hv (depth + 1) containers
      (by omega) (endsNumeral_membersText hlayout members depth rest) [] key
    have hmembersText :=
      finish_membersText hlayout hrest depth containers rest (by omega) [] key v
    rw [Value.text]
    simp only [List.cons_append, List.append_assoc, List.nil_append]
    rw [Reading.finish_of_readToken rfl hopen, Reading.finish_blanks (hlayout.before depth),
      hmember, hmembersText, Members.override_nil hkeys]

/-- Every value without floating-point numbers is read back. -/
theorem Value.Plain.readsBack (hlayout : layout.Spaced) (limit : Nat) (h : v.Plain) :
    v.ReadsBack layout limit := by
  induction h with
  | null => exact readsBack_null
  | bool b => exact readsBack_bool b
  | integer n => exact readsBack_integer n
  | string s => exact readsBack_string s
  | array hitems ih => exact readsBack_array hlayout ih
  | object hkeys hmembers ih => exact readsBack_object hlayout hkeys ih

theorem Value.Plain.read_text (hlayout : layout.Spaced) (h : v.Plain) (hdepth : v.depth ≤ limit) :
    read limit (String.ofList (v.text standard layout 0)) = .ok v := by
  have hread := h.readsBack hlayout limit 0 [] .value [] trivial hdepth (fun _ h => by cases h)
  rw [List.append_nil] at hread
  rw [read, String.toList_ofList, Reading.start, hread, Reading.finish]
  rfl

theorem Value.Plain.read_pretty (h : v.Plain) (hdepth : v.depth ≤ limit) :
    read limit v.pretty = .ok v :=
  h.read_text spaced_indented hdepth

end Values

end LaurentCalc.Json
