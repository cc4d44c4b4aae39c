import LaurentCalc.Settings
import LaurentCalc.Proofs.Attempt
import LaurentCalc.Proofs.JsonTokens

/-!
# Loaded settings

An object that is read has no key twice, so what a file supplies for a key is one value, and
loading puts it in the place of the default. A file that is missing or no well-formed text
supplies nothing. Files that cannot be read, bytes that encode no text, values that are no objects
and values that nest too deeply spoil the settings: nothing is loaded then, not even the defaults.
-/

namespace LaurentCalc

set_option autoImplicit false

namespace Json

namespace Members

variable {key key' : String} {v : Value} {members base others : Members}

theorem get?_cons (member : String × Value) (members : Members) (key : String) :
    get? key (member :: members) = if member.1 = key then some member.2 else get? key members := rfl

theorem get?_put (key key' : String) (v : Value) (members : Members) :
    get? key' (put key v members) = if key = key' then some v else get? key' members := by
  induction members with
  | nil => rfl
  | cons member rest ih =>
    rw [put]
    by_cases hmember : member.1 = key
    · rw [if_pos hmember, get?_cons, get?_cons, hmember]
      by_cases hkey : key = key'
      · rw [if_pos hkey, if_pos hkey]
      · rw [if_neg hkey, if_neg hkey, if_neg hkey]
    · rw [if_neg hmember, get?_cons, get?_cons, ih]
      by_cases hkey : key = key'
      · rw [if_pos hkey, if_pos hkey, if_neg (hkey ▸ hmember)]
      · rw [if_neg hkey, if_neg hkey]

theorem get?_eq_none (h : key ∉ members.map Prod.fst) : get? key members = none := by
  induction members with
  | nil => rfl
  | cons member rest ih =>
    rw [List.map_cons, List.mem_cons, not_or] at h
    rw [get?_cons, if_neg (Ne.symm h.1), ih h.2]

theorem isSome_get? (h : key ∈ members.map Prod.fst) : (get? key members).isSome := by
  induction members with
  | nil => cases h
  | cons member rest ih =>
    rw [get?_cons]
    by_cases hkey : member.1 = key
    · rw [if_pos hkey]
      rfl
    · rw [if_neg hkey]
      rw [List.map_cons, List.mem_cons] at h
      exact ih (h.resolve_left (Ne.symm hkey))

def Distinct (members : Members) : Prop := (members.map Prod.fst).Nodup

theorem distinct_nil : Distinct [] := List.nodup_nil

/-- A key that is put is one of the old keys or the last one. -/
theorem keys_put (key : String) (v : Value) (members : Members) :
    (put key v members).map Prod.fst =
      if key ∈ members.map Prod.fst then members.map Prod.fst
      else members.map Prod.fst ++ [key] := by
  induction members with
  | nil => rfl
  | cons member rest ih =>
    rw [put]
    by_cases hkey : member.1 = key
    · rw [if_pos hkey, List.map_cons, List.map_cons, hkey, if_pos List.mem_cons_self]
    · rw [if_neg hkey, List.map_cons, List.map_cons, ih]
      by_cases hmem : key ∈ rest.map Prod.fst
      · rw [if_pos hmem, if_pos (List.mem_cons_of_mem _ hmem)]
      · have hnot : key ∉ member.1 :: rest.map Prod.fst := by
          rw [List.mem_cons, not_or]
          exact ⟨Ne.symm hkey, hmem⟩
        rw [if_neg hmem, if_neg hnot, List.cons_append]

theorem Distinct.put (h : members.Distinct) (key : String) (v : Value) :
    (members.put key v).Distinct := by
  unfold Distinct
  rw [keys_put]
  split
  · exact h
  · next hmem =>
    refine List.nodup_append.mpr ⟨h, List.nodup_cons.mpr ⟨List.not_mem_nil, List.nodup_nil⟩, ?_⟩
    intro other hother key' hkey' heq
    rw [List.mem_singleton] at hkey'
    exact hmem (hkey' ▸ heq ▸ hother)

/-- Overriding members win. -/
theorem get?_override (hdistinct : others.Distinct) (base : Members) (key : String) :
    get? key (override base others) = (get? key others).or (get? key base) := by
  induction others generalizing base with
  | nil => rfl
  | cons member rest ih =>
    -- A member put first stays as it is only because none behind it has its key.
    obtain ⟨hmember, hrest⟩ := List.nodup_cons.mp hdistinct
    have hput := ih hrest (put member.1 member.2 base)
    rw [get?_put] at hput
    have hfold : override base (member :: rest) = override (put member.1 member.2 base) rest := rfl
    rw [hfold, hput, get?_cons]
    by_cases hkey : member.1 = key
    · rw [if_pos hkey, if_pos hkey, get?_eq_none (hkey ▸ hmember)]
      rfl
    · rw [if_neg hkey, if_neg hkey]

end Members

def Value.KeysDistinct : Value → Prop
  | .object members => Members.Distinct members
  | _ => True

def Token.KeysDistinct : Token → Prop
  | .scalar v => v.KeysDistinct
  | _ => True

def Container.KeysDistinct : Container → Prop
  | .array _ => True
  | .object members => members.Distinct
  | .member members _ => members.Distinct

def Awaited.KeysDistinct : Awaited → Prop
  | .separator v => v.KeysDistinct
  | _ => True

/-- No object that is open or complete has a key twice. -/
structure Reading.KeysDistinct (r : Reading) : Prop where
  containers : ∀ container ∈ r.containers, container.KeysDistinct
  awaited : r.awaited.KeysDistinct

section Tokens

variable {cs after : List Char} {v : Value} {token : Token}

theorem keysDistinct_of_readWord (h : readWord cs = some (v, after)) : v.KeysDistinct := by
  obtain ⟨⟨word, w⟩, hmem, h⟩ := List.exists_of_findSome?_eq_some h
  obtain ⟨rest, -, hpair⟩ := Option.map_eq_some_iff.mp h
  obtain ⟨rfl, -⟩ := Prod.mk.inj hpair
  simp only [words, List.mem_cons, Prod.mk.injEq, List.not_mem_nil, or_false] at hmem
  rcases hmem with ⟨-, rfl⟩ | ⟨-, rfl⟩ | ⟨-, rfl⟩ | ⟨-, rfl⟩ | ⟨-, rfl⟩ | ⟨-, rfl⟩ <;> trivial

theorem keysDistinct_of_readUnsigned {negative : Bool}
    (h : readUnsigned negative cs = some (v, after)) : v.KeysDistinct := by
  simp only [readUnsigned, bind, Option.bind_eq_some_iff] at h
  obtain ⟨⟨whole, rest⟩, -, h⟩ := h
  split at h
  · split at h
    · obtain ⟨rfl, -⟩ := Prod.mk.inj (Option.some.inj h)
      trivial
    · obtain ⟨rfl, -⟩ := Prod.mk.inj (Option.some.inj h)
      trivial
  · obtain ⟨rfl, -⟩ := Prod.mk.inj (Option.some.inj h)
    trivial

theorem keysDistinct_of_readNumber (h : readNumber cs = some (v, after)) : v.KeysDistinct := by
  unfold readNumber at h
  split at h <;> exact keysDistinct_of_readUnsigned h

/-- No token is an object. -/
theorem keysDistinct_of_readToken (h : readToken cs = some (token, after)) :
    token.KeysDistinct := by
  unfold readToken at h
  split at h
  -- Strings and what is neither a symbol nor a string; all other tokens are symbols.
  case h_1 => cases h
  case h_8 rest =>
    obtain ⟨⟨units, after'⟩, -, h⟩ := Option.bind_eq_some_iff.mp h
    obtain ⟨rfl, -⟩ := Prod.mk.inj (Option.some.inj h)
    trivial
  case h_9 =>
    obtain ⟨⟨v, after'⟩, hread, h⟩ := Option.bind_eq_some_iff.mp h
    obtain ⟨rfl, -⟩ := Prod.mk.inj (Option.some.inj h)
    cases hword : readWord cs with
    | none =>
      rw [hword] at hread
      exact keysDistinct_of_readNumber hread
    | some found =>
      rw [hword] at hread
      obtain rfl := Option.some.inj hread
      exact keysDistinct_of_readWord hword
  all_goals
    obtain ⟨rfl, -⟩ := Prod.mk.inj (Option.some.inj h)
    trivial

end Tokens

namespace Reading

variable {limit : Nat} {r next : Reading} {token : Token} {containers : List Container}

theorem keysDistinct_enter {container : Container} {awaited : Awaited}
    (h : enter limit containers container awaited = .ok next)
    (hcontainers : ∀ c ∈ containers, c.KeysDistinct) (hcontainer : container.KeysDistinct)
    (hawaited : awaited.KeysDistinct) : next.KeysDistinct := by
  unfold enter at h
  split at h
  · obtain rfl := Except.ok.inj h
    exact ⟨List.forall_mem_cons.mpr ⟨hcontainer, hcontainers⟩, hawaited⟩
  · cases h

theorem keysDistinct_beginValue (hcontainers : ∀ c ∈ containers, c.KeysDistinct)
    (htoken : token.KeysDistinct) (h : beginValue limit containers token = .ok next) :
    next.KeysDistinct := by
  unfold beginValue at h
  split at h
  · exact keysDistinct_enter h hcontainers Members.distinct_nil trivial
  · exact keysDistinct_enter h hcontainers trivial trivial
  · obtain rfl := Except.ok.inj h
    exact ⟨hcontainers, trivial⟩
  · obtain rfl := Except.ok.inj h
    exact ⟨hcontainers, htoken⟩
  · cases h

theorem keysDistinct_afterValue {v : Value} (hcontainers : ∀ c ∈ containers, c.KeysDistinct)
    (h : afterValue v containers token = .ok next) : next.KeysDistinct := by
  unfold afterValue at h
  split at h
  · obtain rfl := Except.ok.inj h
    obtain ⟨-, hrest⟩ := List.forall_mem_cons.mp hcontainers
    exact ⟨List.forall_mem_cons.mpr ⟨trivial, hrest⟩, trivial⟩
  · obtain rfl := Except.ok.inj h
    obtain ⟨-, hrest⟩ := List.forall_mem_cons.mp hcontainers
    exact ⟨hrest, trivial⟩
  · obtain rfl := Except.ok.inj h
    obtain ⟨hmembers, hrest⟩ := List.forall_mem_cons.mp hcontainers
    exact ⟨List.forall_mem_cons.mpr ⟨hmembers.put _ v, hrest⟩, trivial⟩
  · obtain rfl := Except.ok.inj h
    obtain ⟨hmembers, hrest⟩ := List.forall_mem_cons.mp hcontainers
    exact ⟨hrest, hmembers.put _ v⟩
  · cases h

/-- A token puts no key twice into an object. -/
theorem KeysDistinct.step (hr : r.KeysDistinct) (htoken : token.KeysDistinct)
    (h : r.step limit token = .ok next) : next.KeysDistinct := by
  have hcontainers := hr.containers
  unfold Reading.step at h
  split at h
  · exact keysDistinct_beginValue hcontainers htoken h
  · next hopen =>
    obtain rfl := Except.ok.inj h
    rw [hopen] at hcontainers
    obtain ⟨-, hrest⟩ := List.forall_mem_cons.mp hcontainers
    exact ⟨hrest, trivial⟩
  · exact keysDistinct_beginValue hcontainers htoken h
  · obtain rfl := Except.ok.inj h
    exact ⟨hcontainers, trivial⟩
  · obtain rfl := Except.ok.inj h
    exact ⟨hcontainers, trivial⟩
  · next hopen =>
    obtain rfl := Except.ok.inj h
    rw [hopen] at hcontainers
    obtain ⟨-, hrest⟩ := List.forall_mem_cons.mp hcontainers
    exact ⟨hrest, Members.distinct_nil⟩
  · next hopen =>
    obtain rfl := Except.ok.inj h
    rw [hopen] at hcontainers
    obtain ⟨hmembers, hrest⟩ := List.forall_mem_cons.mp hcontainers
    exact ⟨List.forall_mem_cons.mpr ⟨hmembers, hrest⟩, trivial⟩
  · exact keysDistinct_afterValue hcontainers h
  · cases h

theorem KeysDistinct.finish {v : Value} (hr : r.KeysDistinct) {cs : List Char}
    (h : r.finish limit cs = .ok v) : v.KeysDistinct := by
  fun_induction Reading.finish limit r cs with
  | case1 r =>
    obtain ⟨containers, awaited⟩ := r
    unfold Reading.value at h
    split at h
    · next heq =>
      obtain rfl := Except.ok.inj h
      cases heq
      exact hr.awaited
    · cases h
  | case2 r c rest hblank ih => exact ih hr h
  | case3 r c rest hblank hread => cases h
  | case4 r c rest hblank token after hread fault hstep => cases h
  | case5 r c rest hblank token after hread next hstep ih =>
    exact ih (hr.step (keysDistinct_of_readToken hread) hstep) h

end Reading

theorem distinct_of_read {limit : Nat} {text : String} {members : Members}
    (h : read limit text = .ok (.object members)) : members.Distinct := by
  have hstart : Reading.start.KeysDistinct := ⟨fun _ h => absurd h List.not_mem_nil, trivial⟩
  exact hstart.finish h

end Json

open Json (Members)

variable {limit : Nat} {file : FileState}

/-- What a file supplies: the members of its object, or nothing where there is no file or no
well-formed text. -/
inductive FileState.Supplies (limit : Nat) : FileState → Members → Prop where
  | absent : Supplies limit .absent []
  | malformed {content : List UInt8} {text : String} (hdecode : Text.Utf8.decode content = .ok text)
      (hread : Json.read limit text = .error .malformed) : Supplies limit (.bytes content) []
  | object {content : List UInt8} {text : String} {members : Members}
      (hdecode : Text.Utf8.decode content = .ok text)
      (hread : Json.read limit text = .ok (.object members)) :
      Supplies limit (.bytes content) members

/-- Why a file supplies nothing, not even that there is nothing. -/
inductive FileState.Spoils (limit : Nat) : FileState → FileFault → Prop where
  | directory : Spoils limit .directory .isDirectory
  | unreadable : Spoils limit .unreadable .notPermitted
  | undecodable {content : List UInt8} {fault : Text.Utf8.Fault}
      (hdecode : Text.Utf8.decode content = .error fault) :
      Spoils limit (.bytes content) (.undecodable fault)
  | nestedTooDeeply {content : List UInt8} {text : String}
      (hdecode : Text.Utf8.decode content = .ok text)
      (hread : Json.read limit text = .error .nestedTooDeeply) :
      Spoils limit (.bytes content) .nestedTooDeeply
  | notMapping {content : List UInt8} {text : String} {v : Json.Value}
      (hdecode : Text.Utf8.decode content = .ok text) (hread : Json.read limit text = .ok v)
      (hv : ∀ members, v ≠ .object members) :
      Spoils limit (.bytes content) (.notMapping v.typeName)

theorem FileState.supplies_or_spoils (limit : Nat) (file : FileState) :
    (∃ members, file.Supplies limit members) ∨ ∃ fault, file.Spoils limit fault := by
  cases file with
  | absent => exact Or.inl ⟨[], .absent⟩
  | directory => exact Or.inr ⟨_, .directory⟩
  | unreadable => exact Or.inr ⟨_, .unreadable⟩
  | bytes content =>
    cases hdecode : Text.Utf8.decode content with
    | error fault => exact Or.inr ⟨_, .undecodable hdecode⟩
    | ok text =>
      rcases hread : Json.read limit text with fault | v
      · cases fault with
        | malformed => exact Or.inl ⟨[], .malformed hdecode hread⟩
        | nestedTooDeeply => exact Or.inr ⟨_, .nestedTooDeeply hdecode hread⟩
      · by_cases hv : ∃ members, v = .object members
        · obtain ⟨members, rfl⟩ := hv
          exact Or.inl ⟨members, .object hdecode hread⟩
        · exact Or.inr ⟨_, .notMapping hdecode hread (not_exists.mp hv)⟩

namespace Settings

theorem load_of_supplies {members : Members} (h : file.Supplies limit members) :
    load limit file = .ok (Members.override defaults members) := by
  cases h with
  | absent => rfl
  | malformed hdecode hread =>
    simp only [load, FileState.value?, hdecode, hread]
    rfl
  | object hdecode hread =>
    simp only [load, FileState.value?, hdecode, hread]
    rfl

theorem load_of_spoils {fault : FileFault} (h : file.Spoils limit fault) :
    load limit file = .error fault := by
  cases h with
  | directory | unreadable => rfl
  | undecodable hdecode =>
    simp only [load, FileState.value?, hdecode]
    rfl
  | nestedTooDeeply hdecode hread =>
    simp only [load, FileState.value?, hdecode, hread]
    rfl
  | notMapping hdecode hread hv =>
    simp only [load, FileState.value?, hdecode, hread, ok_bind]

theorem distinct_of_supplies {members : Members} (h : file.Supplies limit members) :
    members.Distinct := by
  cases h with
  | absent => exact Members.distinct_nil
  | malformed hdecode hread => exact Members.distinct_nil
  | object hdecode hread => exact Json.distinct_of_read hread

theorem loadValue_everything (limit : Nat) (file : FileState) :
    loadValue limit file everything = (load limit file).map .object := by
  unfold loadValue
  cases load limit file <;> rfl

/-- All settings are loaded unless the file spoils them. What they have for a key is what the file
supplies for it and else the default, so that no key of the defaults is without a value. -/
theorem loadValue_over_defaults (limit : Nat) (file : FileState) :
    (∀ fault, loadValue limit file everything = .error fault ↔ file.Spoils limit fault) ∧
    ((∃ members, file.Supplies limit members) ∨ ∃ fault, file.Spoils limit fault) ∧
    ∀ members, file.Supplies limit members →
      ∃ settings, loadValue limit file everything = .ok (.object settings) ∧
        (∀ key, Members.get? key settings =
          (Members.get? key members).or (Members.get? key defaults)) ∧
        ∀ key ∈ defaults.map Prod.fst, (Members.get? key settings).isSome := by
  refine ⟨fun fault => ⟨fun h => ?_, fun h => ?_⟩, file.supplies_or_spoils limit,
    fun members h => ⟨Members.override defaults members, ?_, ?_, ?_⟩⟩
  · rw [loadValue_everything] at h
    rcases file.supplies_or_spoils limit with ⟨members, hsupplies⟩ | ⟨fault', hspoils⟩
    · rw [load_of_supplies hsupplies] at h
      cases h
    · rw [load_of_spoils hspoils] at h
      cases h
      exact hspoils
  · rw [loadValue_everything, load_of_spoils h]
    rfl
  · rw [loadValue_everything, load_of_supplies h]
    rfl
  · exact Members.get?_override (distinct_of_supplies h) defaults
  · intro key hkey
    rw [Members.get?_override (distinct_of_supplies h), Option.isSome_or,
      Members.isSome_get? hkey, Bool.or_true]

set_option maxRecDepth 20000 in
theorem loadValue_over_defaults_one_member :
    ∃ settings, loadValue 600
        (.bytes [0x7B, 0x22, 0x64, 0x65, 0x62, 0x75, 0x67, 0x22, 0x3A, 0x5B, 0x5D, 0x7D])
        everything = .ok (.object settings) ∧
      Members.get? "debug" settings = some (.array []) ∧
      Members.get? "prompt" settings = some (.string ">>> ") := by
  have hsupplies : FileState.Supplies 600
      (.bytes [0x7B, 0x22, 0x64, 0x65, 0x62, 0x75, 0x67, 0x22, 0x3A, 0x5B, 0x5D, 0x7D])
      [("debug", .array [])] := by
    have hdecode : Text.Utf8.decode
        [0x7B, 0x22, 0x64, 0x65, 0x62, 0x75, 0x67, 0x22, 0x3A, 0x5B, 0x5D, 0x7D] =
          .ok "\x7b\"debug\":[]\x7d" := rfl
    have hread : Json.read 600 "\x7b\"debug\":[]\x7d" = .ok (.object [("debug", .array [])]) := by
      rw [Json.read, show "\x7b\"debug\":[]\x7d".toList =
        ['{', '"', 'd', 'e', 'b', 'u', 'g', '"', ':', '[', ']', '}'] from rfl]
      -- one token after the other, and then the end
      repeat rw [Json.Reading.finish_of_readToken rfl rfl]
      rw [Json.Reading.finish]
      rfl
    exact .object hdecode hread
  obtain ⟨-, -, hload⟩ := loadValue_over_defaults 600
    (.bytes [0x7B, 0x22, 0x64, 0x65, 0x62, 0x75, 0x67, 0x22, 0x3A, 0x5B, 0x5D, 0x7D])
  obtain ⟨settings, hsettings, hvalue, -⟩ := hload _ hsupplies
  exact ⟨settings, hsettings, hvalue "debug", hvalue "prompt"⟩

/-- A byte that begins no character, or a list in the place of the object, and no settings are
loaded. -/
theorem loadValue_of_broken_files :
    loadValue 600 (.bytes [0xFF]) everything = .error (.undecodable ⟨.invalidStart, 255, 0, 1⟩) ∧
      loadValue 600 (.bytes [0x5B, 0x5D]) everything = .error (.notMapping "list") := by
  refine ⟨rfl, ?_⟩
  have hread : Json.read 600 "[]" = .ok (.array []) := by
    rw [Json.read, show "[]".toList = ['[', ']'] from rfl,
      Json.Reading.finish_of_readToken rfl rfl, Json.Reading.finish_of_readToken rfl rfl,
      Json.Reading.finish]
    rfl
  have hdecode : Text.Utf8.decode [0x5B, 0x5D] = .ok "[]" := rfl
  rw [loadValue, load, FileState.value?, hdecode]
  simp only [hread, ok_bind]
  rfl

end Settings

end LaurentCalc
