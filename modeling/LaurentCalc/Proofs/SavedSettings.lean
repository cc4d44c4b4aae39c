import LaurentCalc.Proofs.JsonValues
import LaurentCalc.Proofs.Utf8
import Mathlib.Data.List.Nodup

/-!
# Saved settings

Settings that have been saved are supplied by the file again, so that loading puts them over the
defaults, and saving what was loaded changes nothing. A save that fails hands back an empty object.
For an empty object this looks like success, and what stood there before stays there.
-/

namespace LaurentCalc

open Json (Value Members)

set_option autoImplicit false

namespace Json

namespace Members

variable {base others members : Members} {member : String × Value} {key : String} {v : Value}

theorem mem_put (h : member ∈ members.put key v) : member = (key, v) ∨ member ∈ members := by
  induction members with
  | nil => exact Or.inl (List.mem_singleton.mp h)
  | cons first members ih =>
    rw [put] at h
    split at h
    · rcases List.mem_cons.mp h with h | h
      · exact Or.inl h
      · exact Or.inr (List.mem_cons_of_mem _ h)
    · rcases List.mem_cons.mp h with h | h
      · exact Or.inr (h ▸ List.mem_cons_self)
      · exact (ih h).imp_right (List.mem_cons_of_mem _)

/-- Nothing is in the result that was not in one of the two. -/
theorem mem_override (h : member ∈ override base others) : member ∈ base ∨ member ∈ others := by
  induction others generalizing base with
  | nil => exact Or.inl h
  | cons first others ih =>
    have hput : member ∈ override (base.put first.1 first.2) others := h
    rcases ih hput with h | h
    · rcases mem_put h with rfl | h
      · exact Or.inr List.mem_cons_self
      · exact Or.inl h
    · exact Or.inr (List.mem_cons_of_mem _ h)

theorem Distinct.override (hbase : base.Distinct) (others : Members) :
    (Members.override base others).Distinct := by
  induction others generalizing base with
  | nil => exact hbase
  | cons first others ih => exact ih (hbase.put first.1 first.2)

theorem get?_of_mem (hmembers : members.Distinct) (h : member ∈ members) :
    get? member.1 members = some member.2 := by
  induction members with
  | nil => cases h
  | cons first members ih =>
    obtain ⟨hfirst, hrest⟩ := List.nodup_cons.mp hmembers
    rw [get?_cons]
    rcases List.mem_cons.mp h with rfl | h
    · exact if_pos rfl
    · rw [if_neg (ne_of_mem_of_not_mem (List.mem_map_of_mem h) hfirst).symm, ih hrest h]

/-- What has been overridden is not changed by the result. -/
theorem override_override (hbase : base.Distinct) (hothers : others.Distinct) :
    override base (override base others) = override base others := by
  rw [override_eq hbase (hbase.override others)]
  have hold : base.map (fun member =>
      (member.1, (get? member.1 (override base others)).getD member.2)) =
        base.map fun member => (member.1, (get? member.1 others).getD member.2) := by
    refine List.map_congr_left fun member hmember => ?_
    rw [get?_override hothers, get?_of_mem hbase hmember]
    cases get? member.1 others <;> rfl
  have hnone : (base.map fun member => (member.1, (get? member.1 others).getD member.2)).filter
      (fun member => member.1 ∉ base.map Prod.fst) = [] := by
    refine List.filter_eq_nil_iff.mpr fun member hmember => ?_
    obtain ⟨old, hmem, rfl⟩ := List.mem_map.mp hmember
    simpa using ⟨old.2, hmem⟩
  -- the old members keep their new values, and the additional ones stay additional
  rw [hold, override_eq hbase hothers, List.filter_append, hnone, List.filter_filter]
  simp only [Bool.and_self, List.nil_append]

end Members

theorem membersDepth_le {n : Nat} {members : Members}
    (h : ∀ member ∈ members, member.2.depth ≤ n) : Value.membersDepth members ≤ n := by
  induction members with
  | nil => exact Nat.zero_le n
  | cons member members ih =>
    obtain ⟨hmember, hrest⟩ := List.forall_mem_cons.mp h
    rw [Value.membersDepth]
    exact Nat.max_le.mpr ⟨hmember, ih hrest⟩

theorem Value.Plain.distinct {d : Members} (h : (Value.object d).Plain) : d.Distinct := by
  cases h with
  | object hkeys _ => exact hkeys

end Json

namespace Store

def Readable (store : Store) : Prop :=
  ∀ rights, store.place = .file rights → rights.readable = true

/-- What a save hands back, and the store that it leaves. -/
inductive Saves (limit : Nat) (store : Store) (v : Value) :
    Except FileFault Value → Store → Prop where
  | tooDeep {count : Nat} (hdepth : limit < v.depth) (hwritable : store.place.writable = true) :
      Saves limit store v (.error .nestedTooDeeply)
        { store with settings? := some ((Text.Utf8.encode v.pretty).take count) }
  | written (hdepth : v.depth ≤ limit) (hwritable : store.place.writable = true) :
      Saves limit store v (.ok v) { store with settings? := some (Text.Utf8.encode v.pretty) }
  | cut {count : Nat} (hdepth : v.depth ≤ limit) (hwritable : store.place.writable = true)
      (hcount : count < (Text.Utf8.encode v.pretty).length) :
      Saves limit store v (.ok (.object []))
        { store with settings? := some ((Text.Utf8.encode v.pretty).take count) }
  | refused (hwritable : store.place.writable = false) :
      Saves limit store v (.ok (.object [])) store

theorem saves_save (limit : Nat) (room? : Option Nat) (store : Store) (v : Value) :
    store.Saves limit v (store.save limit room? v).1 (store.save limit room? v).2 := by
  unfold save
  split
  · next hwritable =>
    dsimp only
    split
    · next hdepth => exact .tooDeep hdepth hwritable
    · next hdepth =>
      have hdepth := Nat.le_of_not_lt hdepth
      split
      · exact .written hdepth hwritable
      · next hroom =>
        cases room? with
        | none => exact absurd rfl hroom
        | some room =>
          have hcount : room < (Text.Utf8.encode v.pretty).length :=
            Nat.lt_of_not_le fun hle => hroom (decide_eq_true hle)
          exact .cut hdepth hwritable hcount
  · next hwritable => exact .refused (Bool.eq_false_iff.mpr hwritable)

/-- Where there is room enough, a value that can be written is handed back. -/
theorem save_writable {limit : Nat} {room? : Option Nat} {store : Store} {v : Value}
    (hdepth : v.depth ≤ limit) (hwritable : store.place.writable = true)
    (hroom : room?.all ((Text.Utf8.encode v.pretty).length ≤ ·) = true) :
    (store.save limit room? v).1 = .ok v := by
  rw [save, if_pos hwritable]
  dsimp only
  rw [if_neg (Nat.not_lt.mpr hdepth), if_pos hroom]

theorem settingsFile_of_writable {store : Store} (hwritable : store.place.writable = true)
    (hreadable : store.Readable) (content : List UInt8) :
    settingsFile { store with settings? := some content } = .bytes content := by
  unfold settingsFile
  cases hplace : store.place with
  | file rights => exact if_pos (Or.inl (hreadable rights hplace))
  | missing | directory =>
    rw [hplace] at hwritable
    cases hwritable

end Store

namespace Settings

theorem distinct_defaults : Members.Distinct defaults := by
  unfold Members.Distinct
  decide

/-- No default is an array, an object or a floating-point number. -/
theorem plain_defaults : ∀ member ∈ defaults, member.2.Plain ∧ member.2.depth = 0 := by
  simp only [defaults, List.forall_mem_cons, List.not_mem_nil, false_implies, implies_true,
    and_true]
  exact ⟨⟨.bool _, rfl⟩, ⟨.bool _, rfl⟩, ⟨.bool _, rfl⟩, ⟨.bool _, rfl⟩, .string _, rfl⟩

section

variable {limit : Nat} {room? : Option Nat} {store saved : Store} {file : FileState}
variable {d members : Members} {key : String} {v : Value}

/-- Settings over the defaults can be written and read where the settings themselves can. -/
theorem plain_over_defaults (h : (Value.object d).Plain) :
    (Value.object (Members.override defaults d)).Plain := by
  cases h with
  | object hkeys hmembers =>
    refine .object (distinct_defaults.override d) fun member hmember => ?_
    rcases Members.mem_override hmember with hdefault | hmember
    · exact (plain_defaults member hdefault).1
    · exact hmembers member hmember

theorem over_defaults_ne_nil (h : d.Distinct) : Members.override defaults d ≠ [] := by
  rw [Members.override_eq distinct_defaults h]
  exact List.append_ne_nil_of_left_ne_nil (List.cons_ne_nil _ _) _

theorem depth_over_defaults (d : Members) :
    (Value.object (Members.override defaults d)).depth ≤ (Value.object d).depth := by
  rw [Value.depth, Value.depth]
  refine Nat.succ_le_succ (Json.membersDepth_le fun member hmember => ?_)
  rcases Members.mem_override hmember with hdefault | hmember
  · rw [(plain_defaults member hdefault).2]
    exact Nat.zero_le _
  · exact Json.depth_le_membersDepth hmember

/-- Settings without floating-point numbers are supplied by the bytes that are written for them. -/
theorem supplies_encoded (h : (Value.object d).Plain) (hdepth : (Value.object d).depth ≤ limit) :
    FileState.Supplies limit (.bytes (Text.Utf8.encode (Value.object d).pretty)) d :=
  .object (Text.Utf8.decode_encode _) (h.read_pretty hdepth)

/-- The beginning of an empty object is malformed, so it supplies what the object does. -/
theorem supplies_cut {count : Nat} (hdepth : (Value.object []).depth ≤ limit)
    (hcount : count < (Text.Utf8.encode (Value.object []).pretty).length) :
    FileState.Supplies limit
      (.bytes ((Text.Utf8.encode (Value.object []).pretty).take count)) [] := by
  have hcontent : Text.Utf8.encode (Value.object []).pretty = [0x7B, 0x7D] := by
    rw [Text.Utf8.encode_eq]
    rfl
  rw [hcontent] at hcount ⊢
  rcases count with _ | _ | count
  · have hread : Json.read limit "" = .error .malformed := by
      rw [Json.read, String.toList_empty, Json.Reading.finish]
      rfl
    exact .malformed rfl hread
  · have hopen : Json.Reading.start.step limit .openBrace = .ok ⟨[.object []], .keyOrEnd⟩ :=
      Json.Reading.enter_of_lt hdepth
    have hread : Json.read limit "\x7b" = .error .malformed := by
      rw [Json.read, show "\x7b".toList = ['{'] from rfl,
        Json.Reading.finish_of_readToken rfl hopen, Json.Reading.finish]
      rfl
    exact .malformed rfl hread
  · exact absurd hcount (Nat.not_lt.mpr (Nat.le_add_left 2 count))

/-- What a save hands back unchanged is supplied by what is found afterwards. -/
theorem supplies_saved (h : (Value.object d).Plain)
    (hsaves : store.Saves limit (.object d) (.ok (.object d)) saved)
    (hreadable : store.Readable)
    (hkept : d ≠ [] ∨ store.place.writable = true ∨ store.settingsFile.Supplies limit []) :
    saved.settingsFile.Supplies limit d := by
  cases hsaves with
  | written hdepth hwritable =>
    rw [Store.settingsFile_of_writable hwritable hreadable]
    exact supplies_encoded h hdepth
  | cut hdepth hwritable hcount =>
    rw [Store.settingsFile_of_writable hwritable hreadable]
    exact supplies_cut hdepth hcount
  | refused hwritable =>
    rcases hkept with hne | hkept | hkept
    · exact absurd rfl hne
    · rw [hwritable] at hkept
      cases hkept
    · exact hkept

theorem loadValue_key (hkeys : members.Distinct)
    (h : file.Supplies limit members) (hkey : key ≠ everything) :
    loadValue limit file key =
      .ok (((Members.get? key members).or (Members.get? key defaults)).getD (.integer 0)) := by
  rw [loadValue, load_of_supplies h, ok_bind, if_neg hkey, Members.get?_override hkeys]
  rfl

theorem depth_le_of_saves {w : Value} (h : store.Saves limit v (.ok w) saved)
    (hwritable : store.place.writable = true) : v.depth ≤ limit := by
  cases h with
  | written hdepth _ | cut hdepth _ _ => exact hdepth
  | refused hrefused =>
    rw [hwritable] at hrefused
    cases hrefused

theorem place_of_saves {result : Except FileFault Value} (h : store.Saves limit v result saved) :
    saved.place = store.place := by
  cases h <;> rfl

/-- Saving what was loaded changes nothing that is loaded, unless the file is cut off by it. -/
theorem loadValue_saved_again {result : Except FileFault Value} {again : Store}
    (h : (Value.object d).Plain) (hsupplies : store.settingsFile.Supplies limit d)
    (hreadable : store.Readable)
    (hsaves : store.Saves limit (.object (Members.override defaults d)) result again)
    (hkept : result = .ok (.object (Members.override defaults d)) ∨
      store.place.writable = false) (key : String) :
    loadValue limit again.settingsFile key = loadValue limit store.settingsFile key := by
  cases hsaves with
  | refused _ => rfl
  | written hdepth hwritable =>
    have hsupplies' := supplies_encoded (plain_over_defaults h) hdepth
    unfold loadValue
    rw [Store.settingsFile_of_writable hwritable hreadable, load_of_supplies hsupplies,
      load_of_supplies hsupplies', Members.override_override distinct_defaults h.distinct]
  | tooDeep _ hwritable =>
    rcases hkept with hresult | hrefused
    · cases hresult
    · rw [hwritable] at hrefused
      cases hrefused
  | cut _ hwritable _ =>
    rcases hkept with hresult | hrefused
    · exact absurd (Value.object.inj (Except.ok.inj hresult)).symm
        (over_defaults_ne_nil h.distinct)
    · rw [hwritable] at hrefused
      cases hrefused

/-- Settings that a save hands back unchanged are loaded over the defaults, if they may be read: the
defaults keep their places with the new values, and the other settings follow in their own order.
What was loaded can be saved, too, where there is room for it, and is loaded again. Only an empty
object is handed back without having been saved, and then nothing must have been there before. -/
theorem loadValue_saved (h : (Value.object d).Plain)
    (hsaved : (store.save limit room? (.object d)).1 = .ok (.object d))
    (hreadable : store.Readable)
    (hkept : d ≠ [] ∨ store.place.writable = true ∨ store.settingsFile.Supplies limit []) :
    ∃ (saved : Store) (merged : Members), saved = (store.save limit room? (.object d)).2 ∧
      merged =
        defaults.map (fun member => (member.1, (Members.get? member.1 d).getD member.2)) ++
          d.filter (fun member => member.1 ∉ defaults.map Prod.fst) ∧
      loadValue limit saved.settingsFile everything = .ok (.object merged) ∧
      (∀ key, key ≠ everything → loadValue limit saved.settingsFile key =
        .ok (((Members.get? key d).or (Members.get? key defaults)).getD (.integer 0))) ∧
      ∀ room?', (store.place.writable = true →
          room?'.all ((Text.Utf8.encode (Value.object merged).pretty).length ≤ ·) = true →
          (saved.save limit room?' (.object merged)).1 = .ok (.object merged)) ∧
        ((saved.save limit room?' (.object merged)).1 = .ok (.object merged) ∨
            store.place.writable = false →
          ∀ key, loadValue limit (saved.save limit room?' (.object merged)).2.settingsFile key =
            loadValue limit saved.settingsFile key) := by
  have hsaves := store.saves_save limit room? (.object d)
  rw [hsaved] at hsaves
  have hplace := place_of_saves hsaves
  have hsupplies := supplies_saved h hsaves hreadable hkept
  refine ⟨_, Members.override defaults d, rfl, Members.override_eq distinct_defaults h.distinct, ?_,
    fun key hkey => loadValue_key h.distinct hsupplies hkey, fun room?' => ⟨?_, ?_⟩⟩
  · rw [loadValue_everything, load_of_supplies hsupplies]
    rfl
  · intro hwritable hroom
    have hdepth := Nat.le_trans (depth_over_defaults d) (depth_le_of_saves hsaves hwritable)
    exact Store.save_writable hdepth (hplace.symm ▸ hwritable) hroom
  · intro hagain key
    have hreadable' : (store.save limit room? (.object d)).2.Readable := fun rights hrights =>
      hreadable rights (hplace ▸ hrights)
    rw [← hplace] at hagain
    exact loadValue_saved_again h hsupplies hreadable' (Store.saves_save _ _ _ _) hagain key

end

set_option maxRecDepth 20000 in
theorem loadValue_saved_nested :
    ∃ (saved : Store) (merged : Members),
      saved = (Store.empty.save 600 none (.object [("prompt", .string "\"\n😀"),
        ("debug", .integer 100000000000000000000),
        ("list", .array [.integer (-12), .object [("", .null)], .array []])])).2 ∧
      merged = [("darkmode", .bool false), ("show_equation", .bool true),
        ("copy_result", .bool false), ("debug", .integer 100000000000000000000),
        ("prompt", .string "\"\n😀"),
        ("list", .array [.integer (-12), .object [("", .null)], .array []])] ∧
      loadValue 600 saved.settingsFile everything = .ok (.object merged) ∧
      loadValue 600 saved.settingsFile "other" = .ok (.integer 0) ∧
      (saved.save 600 none (.object merged)).1 = .ok (.object merged) ∧
      loadValue 600 (saved.save 600 none (.object merged)).2.settingsFile everything =
        .ok (.object merged) := by
  have hplain : (Value.object [("prompt", .string "\"\n😀"),
      ("debug", .integer 100000000000000000000),
      ("list", .array [.integer (-12), .object [("", .null)], .array []])]).Plain := by
    have hkey : (Value.object [("", .null)]).Plain :=
      .object (List.nodup_singleton _) fun _ h => List.mem_singleton.mp h ▸ .null
    have hlist : (Value.array [.integer (-12), .object [("", .null)], .array []]).Plain := by
      refine .array fun v hv => ?_
      simp only [List.mem_cons, List.not_mem_nil, or_false] at hv
      rcases hv with rfl | rfl | rfl
      · exact .integer _
      · exact hkey
      · exact .array fun _ h => absurd h List.not_mem_nil
    refine .object (by unfold Members.Distinct; decide) fun member hmember => ?_
    simp only [List.mem_cons, List.not_mem_nil, or_false] at hmember
    rcases hmember with rfl | rfl | rfl
    · exact .string _
    · exact .integer _
    · exact hlist
  have hreadable : Store.empty.Readable := fun rights hrights => by
    obtain rfl := Place.file.inj hrights
    rfl
  obtain ⟨saved, merged, hsaved, hmerged, hall, hkey, hagain⟩ :=
    @loadValue_saved 600 none .empty _ hplain rfl hreadable (Or.inl (List.cons_ne_nil _ _))
  obtain ⟨hsucceeds, hsame⟩ := hagain none
  refine ⟨saved, merged, hsaved, hmerged, hall, ?_, hsucceeds rfl rfl, ?_⟩
  · rw [hkey "other" (by decide)]
    rfl
  · rw [hsame (Or.inl (hsucceeds rfl rfl)), hall]

/-- A save of an empty object hands it back, whether it is saved or not. Where a directory stands in
the place of the file nothing can be loaded, and where the file must not be written what it held
before is loaded. A file that may be written but not read cannot be loaded, whatever was saved. -/
theorem save_hides_failure :
    (Value.object []).Plain ∧
    ((Store.save 600 none ⟨none, none, .directory⟩ (.object [])).1 = .ok (.object []) ∧
      loadValue 600 (Store.save 600 none ⟨none, none, .directory⟩ (.object [])).2.settingsFile
        everything = .error .isDirectory) ∧
    (∃ store : Store, store.place = .file ⟨true, false⟩ ∧
      (store.save 600 none (.object [])).1 = .ok (.object []) ∧
      loadValue 600 (store.save 600 none (.object [])).2.settingsFile "debug" =
        .ok (.bool true)) ∧
    ∃ store : Store, store.place = .file ⟨false, true⟩ ∧
      (store.save 600 none (.object [("debug", .bool true)])).1 =
        .ok (.object [("debug", .bool true)]) ∧
      loadValue 600 (store.save 600 none (.object [("debug", .bool true)])).2.settingsFile
        everything = .error .notPermitted := by
  have hplain : (Value.object []).Plain :=
    .object Members.distinct_nil fun _ h => absurd h List.not_mem_nil
  have hread : Json.read 600 "\x7b\"debug\":true\x7d" = .ok (.object [("debug", .bool true)]) := by
    rw [Json.read, show "\x7b\"debug\":true\x7d".toList =
      ['{', '"', 'd', 'e', 'b', 'u', 'g', '"', ':', 't', 'r', 'u', 'e', '}'] from rfl]
    repeat rw [Json.Reading.finish_of_readToken rfl rfl]
    rw [Json.Reading.finish]
    rfl
  have hsupplies := FileState.Supplies.object (Text.Utf8.decode_encode _) hread
  have hload := loadValue_key (distinct_of_supplies hsupplies) hsupplies
    (show "debug" ≠ everything by decide)
  exact ⟨hplain, ⟨rfl, rfl⟩,
    ⟨⟨some (Text.Utf8.encode "\x7b\"debug\":true\x7d"), none, .file ⟨true, false⟩⟩, rfl, rfl,
      hload⟩,
    ⟨⟨none, none, .file ⟨false, true⟩⟩, rfl, rfl, rfl⟩⟩

end Settings

end LaurentCalc
