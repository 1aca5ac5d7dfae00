import Stencil.Proofs.Json.Overlay
import Stencil.Settings.Loading

/-! Settings that come from a document. Each field says what the document gives for it, or else what it says by
default. -/
namespace Stencil

namespace Settings

open Json

variable {s s' : Settings} {es : Entries Json} {name : String}

/-- What settings hold for each field, as documents write it. -/
def field? (s : Settings) : String → Option Json
  | "debug" => some (.bool s.debug)
  | "log_level" => some (.string s.logLevel)
  | "cache_templates" => some (.bool s.cacheTemplates)
  | "max_render_depth" => some ((s.maxRenderDepth.map fun n => Json.int n).getD .null)
  | "strict_undefined" => some (.bool s.strictUndefined)
  | "globals" => some (.object s.globals)
  | _ => none

theorem at?_json (s : Settings) (name : String) : s.json.at? [name] = s.field? name := by
  simp only [json, at?_object_cons, at?_nil, Option.bind_fun_some, Entries.ofList, Entries.insertAll,
    List.foldl_cons, List.foldl_nil, Entries.get?_insert, Entries.get?_empty]
  symm
  unfold field?
  split
  case h_7 hdebug hlevel hcache hdepth hstrict hglobals =>
    rw [if_neg hglobals, if_neg hstrict, if_neg hdepth, if_neg hcache, if_neg hlevel, if_neg hdebug]
  all_goals rfl

/-- Setting a field makes it say what the document says and leaves the others as they are. -/
theorem at?_json_set {field : String} {j : Json} (h : s.set? field j = some s') (hname : name ∈ fields) :
    s'.json.at? [name] = if name = field then some j else s.json.at? [name] := by
  simp only [at?_json]
  simp only [fields, List.mem_cons, List.not_mem_nil, or_false] at hname
  unfold set? at h
  split at h
  case h_4 =>
    cases j with
    | null =>
      cases h
      rcases hname with rfl | rfl | rfl | rfl | rfl | rfl <;> rfl
    | int n =>
      obtain ⟨d, hd, rfl⟩ := Option.map_eq_some_iff.1 h
      have hn : 0 ≤ n ∧ d = some n.toNat := by
        change (if 0 ≤ n ∧ n < UInt64.size then some (some n.toNat) else none) = some d at hd
        split at hd
        · next hn => exact ⟨hn.1, (Option.some.inj hd).symm⟩
        · cases hd
      obtain ⟨hn, rfl⟩ := hn
      have hint : Json.int n.toNat = .int n := by rw [Int.toNat_of_nonneg hn]
      rw [← hint]
      rcases hname with rfl | rfl | rfl | rfl | rfl | rfl <;> rfl
    | _ => cases h
  case h_7 hdebug hlevel hcache hdepth hstrict hglobals =>
    cases h
    have hne : name ≠ field := by
      rintro rfl
      simp_all
    rw [if_neg hne]
  -- The fields that are left hold one kind of document each.
  all_goals
    cases j <;> cases h
    rcases hname with rfl | rfl | rfl | rfl | rfl | rfl <;> rfl

theorem ofJson?_object (es : Entries Json) :
    ofJson? (.object es) = es.toList.foldlM (fun s e => s.set? e.1 e.2) {} := rfl

/-- The members of an object are set one after the other, each of them once. -/
theorem at?_json_setAll {names : List String} (hdistinct : names.Nodup) (hnames : ∀ k ∈ names, k ∈ es.names)
    (h : (es.along names).foldlM (fun s e => s.set? e.1 e.2) s = some s') (hname : name ∈ fields) :
    s'.json.at? [name] = if name ∈ names then Entries.get? name es else s.json.at? [name] := by
  induction names generalizing s with
  | nil =>
    cases h
    rfl
  | cons k names ih =>
    obtain ⟨hk, hnames⟩ := List.forall_mem_cons.1 hnames
    obtain ⟨hnot, hdistinct⟩ := List.nodup_cons.1 hdistinct
    rw [Entries.along_cons hk, List.foldlM_cons] at h
    obtain ⟨t, hset, hfold⟩ := Option.bind_eq_some_iff.1 h
    rw [ih hdistinct hnames hfold, at?_json_set hset hname]
    by_cases hfirst : name = k
    · subst hfirst
      rw [if_neg hnot, if_pos rfl, if_pos (.head _), Entries.get?_of_mem hk]
    · simp [hfirst]

theorem at?_json_ofJson (h : ofJson? (.object es) = some s) (hname : name ∈ fields) :
    s.json.at? [name] = (Entries.get? name es).or ((json {}).at? [name]) := by
  rw [at?_json_setAll es.distinct (fun _ hk => hk) (ofJson?_object es ▸ h) hname]
  split
  · next hmem => rw [Entries.get?_of_mem hmem, Option.some_or]
  · next hmem => rw [Entries.get?_eq_none.2 hmem, Option.none_or]

/-- The fields tell settings apart. -/
theorem eq_of_at?_json (h : ∀ field ∈ fields, s.json.at? [field] = s'.json.at? [field]) : s = s' := by
  simp only [fields, List.forall_mem_cons, at?_json] at h
  obtain ⟨hdebug, hlevel, hcache, hdepth, hstrict, hglobals, -⟩ := h
  have hbound : s.maxRenderDepth = s'.maxRenderDepth := by
    simp only [field?] at hdepth
    revert hdepth
    cases s.maxRenderDepth with
    | none => cases s'.maxRenderDepth <;> simp
    | some m =>
      cases s'.maxRenderDepth with
      | none => simp
      | some n => exact fun h => congrArg some (Int.ofNat.inj (Json.int.inj (Option.some.inj h)))
  have hrest : s.debug = s'.debug ∧ s.logLevel = s'.logLevel ∧ s.cacheTemplates = s'.cacheTemplates ∧
      s.strictUndefined = s'.strictUndefined ∧ s.globals = s'.globals := by
    refine ⟨?_, ?_, ?_, ?_, ?_⟩
    · simpa [field?] using hdebug
    · simpa [field?] using hlevel
    · simpa [field?] using hcache
    · simpa [field?] using hstrict
    · simpa [field?] using hglobals
  cases s
  cases s'
  simp_all

/-- The defaults hide nothing of a document that is laid over them. -/
theorem exists_default (hname : name ∈ fields) :
    ∃ d, (json {}).at? [name] = some d ∧ ∀ j : Json, Json.merge d j = j := by
  have hbare : ∃ d, (json {}).at? [name] = some d ∧ (d = .object .empty ∨ ¬ d.IsObject) := by
    simp only [fields, List.mem_cons, List.not_mem_nil, or_false] at hname
    rw [at?_json]
    rcases hname with rfl | rfl | rfl | rfl | rfl | rfl <;> simp [field?, IsObject]
  obtain ⟨d, hd, rfl | hobject⟩ := hbare
  · exact ⟨_, hd, merge_bare⟩
  · exact ⟨d, hd, fun j => merge_eq_of_not_objects fun h => hobject h.1⟩

/-- Each field says what the document gives for it, or else its default. -/
theorem at?_json_document (h : ofJson? (Json.merge (json {}) (.object es)) = some s) (hname : name ∈ fields) :
    s.json.at? [name] = (Entries.get? name es).or ((json {}).at? [name]) := by
  obtain ⟨known, hknown⟩ : ∃ known : Entries Json, json {} = .object known := ⟨_, rfl⟩
  obtain ⟨d, hd, hmerge⟩ := exists_default hname
  have hfound : Entries.get? name known = some d := by simpa [hknown] using hd
  rw [hknown, merge_object] at h
  rw [at?_json_ofJson h hname, get?_merged, hfound, hd]
  cases Entries.get? name es with
  | none => rfl
  | some j => rw [mergeFound, hmerge, Option.some_or]

/-- Settings `s` that come from a document with the members `es`. -/
structure Loaded (es : Entries Json) (s : Settings) : Prop where
  given : ∀ field ∈ fields, ∀ j, Entries.get? field es = some j → s.json.at? [field] = some j
  default : ∀ field ∈ fields, Entries.get? field es = none → s.json.at? [field] = (json {}).at? [field]
  defaults : (∀ field ∈ fields, Entries.get? field es = none) → s = {}
  globals : ∀ j, Entries.get? "globals" es = some j → j = .object s.globals

theorem loaded_of_ofText {text : String} (hparse : Json.parse? text = some (.object es))
    (h : ofText .json text = .ok s) : Loaded es s := by
  have hdocument : ofJson? (Json.merge (json {}) (.object es)) = some s := by
    simp only [ofText, Format.parse?, hparse] at h
    split at h
    · cases h
    · next t ht =>
      cases h
      exact ht
  have hfield (field : String) (hfield : field ∈ fields) :=
    at?_json_document hdocument hfield
  have hdefault (field : String) (hmem : field ∈ fields) (hnone : Entries.get? field es = none) :
      s.json.at? [field] = (json {}).at? [field] := by
    simp [hfield field hmem, hnone]
  refine ⟨?_, hdefault, ?_, ?_⟩
  · intro field hmem j hj
    simp [hfield field hmem, hj]
  · intro hnone
    exact eq_of_at?_json fun field hmem => hdefault field hmem (hnone field hmem)
  · intro j hj
    have hglobals := hfield "globals" (by decide)
    rw [hj, at?_json] at hglobals
    simpa [field?] using hglobals.symm

/-- Merging lays one document over another: the upper one wins wherever it holds something that is no object, the
lower one shows through where the upper one lacks a key, and laying the same document over it again changes
nothing. So settings that come from a document have their defaults in all fields that it does not mention, and just
the globals that it gives. -/
theorem ofText_overlays :
    (∀ b o : Json, ¬ (b.IsObject ∧ o.IsObject) → b.merge o = o) ∧
      (∀ o : Json, o.merge o = o) ∧
      (∀ es, (Json.object es).merge (.object .empty) = .object es) ∧
      (∀ b o : Json, Overlays b o (b.merge o)) ∧
      ∀ text es s, Json.parse? text = some (.object es) → ofText .json text = .ok s → Loaded es s :=
  ⟨fun _ _ => merge_eq_of_not_objects, merge_self, merge_empty, overlays_merge, fun _ _ _ => loaded_of_ofText⟩

/-- A number over an object and an object over a number, and a document that sets no bound. -/
theorem ofText_overlays_nested :
    let base : Json := .object (.ofList [("a", .object (.ofList [("b", .int 1), ("c", .int 2)])),
      ("d", .object (.ofList [("e", .int 3)]))])
    let upper : Json := .object (.ofList [("d", .int 4),
      ("a", .object (.ofList [("c", .object (.ofList [("f", .int 20)]))]))])
    let text := "\x7b\"max_render_depth\": null, \"globals\": \x7b\"n\": \x7b\"m\": [1]\x7d\x7d\x7d"
    let globals : Json := .object (.ofList [("n", .object (.ofList [("m", .array [.int 1])]))])
    (base.merge upper).merge upper = base.merge upper ∧ upper.merge upper = upper ∧
      (base.merge upper).at? ["d"] = some (.int 4) ∧ (base.merge upper).at? ["a", "c", "f"] = some (.int 20) ∧
      (base.merge upper).at? ["a", "b"] = some (.int 1) ∧ (base.merge upper).at? ["a", "x", "y"] = none ∧
      ∃ s, ofText .json text = .ok s ∧ s.json.at? ["log_level"] = (json {}).at? ["log_level"] ∧
        s.json.at? ["max_render_depth"] = some .null ∧ globals = .object s.globals := by
  intro base upper text globals
  have hparse : Json.parse? text = some (.object (.ofList
      [("max_render_depth", .null), ("globals", globals)])) := by
    rw [Json.parse?]
    simp only [text, String.reduceToList]
    rfl
  have hsome : (ofJson? (Json.merge (json {}) (.object (.ofList
      [("max_render_depth", .null), ("globals", globals)])))).isSome = true := by
    rfl
  obtain ⟨s, hs⟩ := Option.isSome_iff_exists.1 hsome
  have htext : ofText .json text = .ok s := by
    rw [ofText, Format.parse?, hparse]
    simp only [hs]
  obtain ⟨-, hself, -, hoverlay, hload⟩ := ofText_overlays
  have hover := hoverlay base upper
  have hnumber (n : Int) : ¬ (Json.int n).IsObject := by
    rintro ⟨es, hes⟩
    cases hes
  have hbaseA : base.at? ["a"] = some (.object (.ofList [("b", .int 1), ("c", .int 2)])) := rfl
  have hupperA : upper.at? ["a"] =
      some (.object (.ofList [("c", .object (.ofList [("f", .int 20)]))])) := rfl
  have hupperD : upper.at? ["d"] = some (.int 4) := rfl
  have hupperF : upper.at? ["a", "c", "f"] = some (.int 20) := rfl
  have hloaded := hload text _ s hparse htext
  exact ⟨hover.again, hself upper, hover.upper hupperD (hnumber 4), hover.upper hupperF (hnumber 20),
    hover.missing hbaseA hupperA rfl [], hover.missing hbaseA hupperA rfl ["y"], s, htext,
    hloaded.default "log_level" (by decide) rfl, hloaded.given "max_render_depth" (by decide) .null rfl,
    hloaded.globals _ rfl⟩

end Settings

end Stencil
