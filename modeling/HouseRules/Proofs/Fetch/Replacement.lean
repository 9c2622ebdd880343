import HouseRules.Proofs.Fetch.Outcome

/-! Fetching a source replaces what is stored for it, whatever that was, by what is kept of the
source, and nothing else changes but that directories above the storage are made where they are
missing. Fetching again changes nothing. -/

namespace HouseRules.Fetch

open FileTree Layout

-- only that digests are names matters, never what they are
attribute [local irreducible] Source.hash

variable {layout : Layout} {base location p : String} {t u : FileTree} {s : Location}

/-- A source that is a directory outside its storage. It is not found through a link that stands
in the place of the storage, which would be cleared. -/
structure Outside (t : FileTree) (origin : String) (d s : Location) : Prop where
  leads : t.Leads origin d
  not_inside : ¬s <+: d
  way : (∀ target, t.get? s ≠ some (.link target)) ∨ (t.erase s).Leads origin d

/-- What fetching leaves. The source may be the rules directory itself, or hold it, but then it
copies storages too and the storage is no mirror. -/
theorem fetch_replaces (wf : t.WellFormed) (hcwd : t.get? t.cwd = some .directory)
    (steady : layout.Steady t location) (h : fetch layout base location t = (.ok p, u)) :
    p = layout.storage location ∧ ∃ r, u.Leads layout.rulesDir r ∧
      u.Leads p (storageAt r location) ∧
      (∀ m, ¬storageAt r location <+: m → u.get? m = t.get? m ∨
        t.get? m = none ∧ u.get? m = some .directory ∧ m <+: storageAt r location) ∧
      ∀ d, Outside t (Source.resolve base location) d (storageAt r location) →
        (d ≠ r → LinksAvoid u (Source.resolve base location) d (storageAt r location) →
          ∀ rel e, u.get? (storageAt r location ++ rel) = some e ↔
            Keeps u (Source.resolve base location) d rel e) ∧
        ∃ u', fetch layout base location u = (.ok p, u') ∧ u.Same u' := by
  obtain ⟨rfl, isLocal, -, made, r, inside, fetched⟩ :=
    exists_fetched (exists_prepared wf hcwd steady) h
  refine ⟨rfl, r, fetched.leads_rulesDir, fetched.leads_storage, fun m => fetched.frame,
    fun d outside => ?_⟩
  have leads := fetched.leads_origin outside.leads outside.not_inside outside.way
  exact ⟨fun other links => fetched.get?_iff_keeps leads outside.not_inside other links,
    fetched.again isLocal (isDirectory_iff_leads.2 ⟨d, leads⟩)⟩

/-! ### A host with a stored source -/

/-- A cache in the directory `/cfg`. -/
def sampleLayout : Layout := ⟨"/cfg"⟩

/-- Where the source `p` is stored in that. -/
def sampleStorage : Location := storageAt ["cfg", "rules"] "p"

/-- A source in `/p` that holds a ruleset with two entries. The second one is a file of which an
older content is stored. -/
def sampleHost (first : Entry) : FileTree :=
  ((((((((FileTree.empty.set ["cfg"] .directory).set ["cfg", "rules"] .directory).set
    sampleStorage .directory).set (sampleStorage ++ ["r"]) .directory).set
    (sampleStorage ++ ["r", "b"]) (.file [254] false)).set ["p"] .directory).set
    ["p", "r"] .directory).set ["p", "r", "a.py"] first).set ["p", "r", "b"] (.file [255] false)

variable {first : Entry}

theorem wellFormed_sampleHost (first : Entry) : (sampleHost first).WellFormed := by
  have one := FileTree.wellFormed_empty.set (l := []) (e := .directory)
    (show IsName "cfg" by decide) rfl (by decide)
  have two := one.set (l := ["cfg"]) (e := .directory) (show IsName "rules" by decide) (by decide)
    (by decide)
  have three := two.set (l := ["cfg", "rules"]) (e := .directory) (Source.isName_hash "p")
    (by decide) (by simp [get?_set, get?_empty])
  have four := three.set (l := sampleStorage) (e := .directory) (show IsName "r" by decide)
    (by simp [sampleStorage, storageAt, get?_set])
    (by simp [sampleStorage, storageAt, get?_set, get?_empty])
  have five := four.set (l := sampleStorage ++ ["r"]) (e := .file [254] false)
    (show IsName "b" by decide) (by simp [sampleStorage, storageAt, get?_set])
    (by simp [sampleStorage, storageAt, get?_set, get?_empty])
  have six := five.set (l := []) (e := .directory) (show IsName "p" by decide) rfl
    (by simp [sampleStorage, storageAt, get?_set, get?_empty])
  have seven := six.set (l := ["p"]) (e := .directory) (show IsName "r" by decide)
    (by simp [get?_set]) (by simp [sampleStorage, storageAt, get?_set, get?_empty])
  have eight := seven.set (l := ["p", "r"]) (e := first) (show IsName "a.py" by decide)
    (by simp [get?_set]) (by simp [sampleStorage, storageAt, get?_set, get?_empty])
  exact eight.set (l := ["p", "r"]) (e := .file [255] false) (show IsName "b" by decide)
    (by simp [get?_set]) (by simp [sampleStorage, storageAt, get?_set, get?_empty])

/-- What stands at the directories and the source of the host, whatever is stored. -/
structure HasSample (t : FileTree) (first : Entry) : Prop where
  cfg : t.get? ["cfg"] = some .directory
  rules : t.get? ["cfg", "rules"] = some .directory
  source : t.get? ["p"] = some .directory
  ruleset : t.get? ["p", "r"] = some .directory
  first : t.get? ["p", "r", "a.py"] = some first
  second : t.get? ["p", "r", "b"] = some (.file [255] false)
  noOther : ∀ name, name ≠ "a.py" → name ≠ "b" → t.get? ["p", "r", name] = none
  alone : ∀ name, name ≠ "r" → t.get? ["p", name] = none

namespace HasSample

variable {t u : FileTree}

theorem host (first : Entry) : HasSample (sampleHost first) first := by
  constructor <;>
    simp +contextual [sampleHost, sampleStorage, storageAt, get?_set, get?_empty]

theorem congr (h : HasSample t first)
    (same : ∀ m, ¬(["cfg", "rules"] <+: m ∧ m ≠ ["cfg", "rules"]) → u.get? m = t.get? m) :
    HasSample u first where
  cfg := (same _ (by simp)).trans h.cfg
  rules := (same _ (by simp)).trans h.rules
  source := (same _ (by simp)).trans h.source
  ruleset := (same _ (by simp)).trans h.ruleset
  first := (same _ (by simp)).trans h.first
  second := (same _ (by simp)).trans h.second
  noOther name ha hb := (same _ (by simp)).trans (h.noOther name ha hb)
  alone name hr := (same _ (by simp)).trans (h.alone name hr)

theorem emptied (h : HasSample t first) : HasSample (t.emptied ["cfg", "rules"]) first :=
  h.congr fun _ hm => get?_emptied_of_not_below hm

theorem set (h : HasSample t first) (rel : Location) (e : Entry) :
    HasSample (t.set (sampleStorage ++ rel) e) first :=
  h.congr fun m hm => get?_set_of_ne t (fun same => hm (by
    rw [same]
    exact below_of_storageAt (List.prefix_append sampleStorage rel))) e

theorem leads_rulesDir (h : HasSample t first) : t.Leads sampleLayout.rulesDir ["cfg", "rules"] :=
  ((leads_root t).join (show IsName "cfg" by decide) (by decide) h.cfg).join
    (show IsName "rules" by decide) (by decide) h.rules

theorem leads_source (h : HasSample t first) : t.Leads (Source.resolve "/" "p") ["p"] :=
  (leads_root t).join (show IsName "p" by decide) (by decide) h.source

theorem leads_ruleset (h : HasSample t first) :
    t.Leads (Path.join (Source.resolve "/" "p") "r") ["p", "r"] :=
  h.leads_source.join (show IsName "r" by decide) (by decide) h.ruleset

theorem listing_source (h : HasSample t first) (wf : t.WellFormed) :
    t.listing ["p"] = [("r", .directory)] := by
  refine wf.listing_eq (by simp) fun x => ?_
  obtain ⟨name, e⟩ := x
  by_cases hr : name = "r"
  · subst hr
    simp [h.ruleset, eq_comm]
  · simp [hr, h.alone name hr]

theorem listing_ruleset (h : HasSample t first) (wf : t.WellFormed) :
    t.listing ["p", "r"] = [("a.py", first), ("b", .file [255] false)] := by
  have sorted : "a.py" < "b" := by
    rw [String.lt_iff_toList_lt]
    decide
  refine wf.listing_eq (by simpa using sorted) fun x => ?_
  obtain ⟨name, e⟩ := x
  by_cases ha : name = "a.py"
  · subst ha
    simp [h.first, eq_comm]
  by_cases hb : name = "b"
  · subst hb
    simp [h.second, eq_comm]
  · simp [ha, hb, h.noOther name ha hb]

end HasSample

/-! ### Fetching on the host -/

theorem size_sampleStorage : (sampleLayout.storage "p").utf8ByteSize ≤ 75 := by
  have fits := (Source.isName_hash "p").utf8ByteSize_join_le sampleLayout.rulesDir
  rwa [Source.utf8ByteSize_hash, show sampleLayout.rulesDir.utf8ByteSize = 10 by decide] at fits

/-- Copies of the ruleset have paths that are short enough. -/
theorem size_sampleCopy {name : String} (hname : IsName name) :
    (Path.join (Path.join (sampleLayout.storage "p") "r") name).utf8ByteSize < pathLimit := by
  have short := size_sampleStorage
  have ruleset := IsName.utf8ByteSize_join_le (show IsName "r" by decide) (sampleLayout.storage "p")
  have copy := hname.utf8ByteSize_join_le (Path.join (sampleLayout.storage "p") "r")
  have hname := hname.size_le
  rw [show ("r" : String).utf8ByteSize = 1 by decide] at ruleset
  simp only [nameLimit, pathLimit] at *
  omega

theorem rooted_sampleHost (first : Entry) : sampleLayout.Rooted (sampleHost first) := by
  have leads := (HasSample.host first).leads_rulesDir
  constructor
  · intro r there
    obtain rfl := leads.unique there
    exact (HasSample.host first).emptied.leads_rulesDir
  · intro missing
    cases (exists?_of_isDirectory (isDirectory_iff_leads.2 ⟨_, leads⟩)).symm.trans missing

theorem kept_sampleHost (first : Entry) :
    ((sampleHost first).erase sampleStorage).Leads sampleLayout.rulesDir ["cfg", "rules"] :=
  ((rooted_sampleHost first).steady "p").kept _ (HasSample.host first).leads_rulesDir

/-- The host with an empty storage. -/
def sampleCleared (first : Entry) : FileTree :=
  ((sampleHost first).erase sampleStorage).set sampleStorage .directory

theorem hasSample_sampleCleared (first : Entry) : HasSample (sampleCleared first) first := by
  refine (HasSample.host first).congr fun m hm => ?_
  have outside : ¬sampleStorage <+: m := fun below => hm (below_of_storageAt below)
  rw [sampleCleared, get?_set_of_ne, get?_erase_of_not_below outside]
  rintro rfl
  exact outside List.prefix_rfl

theorem prepared_sampleHost (first : Entry) :
    clear? (sampleHost first) (sampleLayout.storage "p") =
        some ((sampleHost first).erase sampleStorage) ∧
      ((sampleHost first).erase sampleStorage).ensureDirectory (sampleLayout.storage "p") =
        some (sampleCleared first) ∧
      Prepared sampleLayout "p" (sampleHost first) (sampleCleared first) ["cfg", "rules"] := by
  have leads := (HasSample.host first).leads_rulesDir
  have size := size_sampleStorage.trans_lt (show 75 < pathLimit by decide)
  have stored : (sampleHost first).get? (storageAt ["cfg", "rules"] "p") = some .directory := by
    simp [sampleHost, sampleStorage, storageAt, get?_set]
  have hclear := clear?_of_stored leads size stored
  have hmade : ((sampleHost first).erase sampleStorage).ensureDirectory
      (sampleLayout.storage "p") = some (sampleCleared first) :=
    (ensureDirectory_join (kept_sampleHost first) (Source.isName_hash "p")
      (get?_erase_self _ (storageAt_ne_nil _ "p"))).2 ⟨size, rfl⟩
  exact ⟨hclear, hmade,
    prepared_of_leads (wellFormed_sampleHost first) leads (kept_sampleHost first) hclear hmade⟩

/-- The host while the ruleset is copied. -/
def sampleOpened (first : Entry) : FileTree :=
  (sampleCleared first).set (sampleStorage ++ ["r"]) .directory

theorem hasSample_sampleOpened (first : Entry) : HasSample (sampleOpened first) first :=
  (hasSample_sampleCleared first).set ["r"] .directory

theorem get?_sampleOpened_storage (first : Entry) {rel : Location} (hrel : rel ≠ [])
    (hr : rel ≠ ["r"]) : (sampleOpened first).get? (sampleStorage ++ rel) = none := by
  rw [sampleOpened, get?_set_of_ne _ (by simpa using hr)]
  exact (prepared_sampleHost first).2.2.empty rel hrel

theorem room_sampleStorage :
    ("r" : String).utf8ByteSize + 1 ≤ roomBelow (sampleLayout.storage "p") := by
  have short := size_sampleStorage
  rw [show ("r" : String).utf8ByteSize = 1 by decide, roomBelow, pathLimit]
  omega

/-- Copying the entries of the ruleset makes up a fetch. -/
theorem fetch_sampleHost {u : FileTree}
    (copies : Copies (roomBelow (sampleLayout.storage "p") - (("r" : String).utf8ByteSize + 1))
      (sampleOpened first)
      (Path.join (Source.resolve "/" "p") "r") (Path.join (sampleLayout.storage "p") "r")
      (sampleStorage ++ ["r"]) [("a.py", first), ("b", .file [255] false)] u) :
    fetch sampleLayout "/" "p" (sampleHost first) = (.ok (sampleLayout.storage "p"), u) := by
  obtain ⟨hclear, hmade, prepared⟩ := prepared_sampleHost first
  have cleared := hasSample_sampleCleared first
  have inside : (sampleCleared first).listing? (Path.join (Source.resolve "/" "p") "r") =
      some [("a.py", first), ("b", .file [255] false)] := by
    rw [listing?_of_leads cleared.leads_ruleset, cleared.listing_ruleset prepared.wellFormed]
  have listed : (sampleCleared first).listing? (Source.resolve "/" "p") =
      some [("r", .directory)] := by
    rw [listing?_of_leads cleared.leads_source, cleared.listing_source prepared.wellFormed]
  exact fetch_eq_ok (by decide)
    (isDirectory_iff_leads.2 ⟨_, (HasSample.host first).leads_source⟩) hclear hmade
    ⟨prepared, listed, .directory (by decide) room_sampleStorage inside copies .nil⟩

/-- The second entry is copied in any case. -/
theorem copies_second {t : FileTree} (h : HasSample t first) (room : Nat) :
    Copies room t (Path.join (Source.resolve "/" "p") "r")
      (Path.join (sampleLayout.storage "p") "r") (sampleStorage ++ ["r"])
      [("b", .file [255] false)] (t.set (sampleStorage ++ ["r"] ++ ["b"]) (.file [255] false)) := by
  refine .file (by simp) (size_sampleCopy (by decide)) ?_ .nil
  rw [h.leads_ruleset.find?_join (by decide) (by simp [h.second]), if_pos (by decide)]
  exact h.second

/-- The host after both entries were copied. -/
def sampleCopied (content : List UInt8) : FileTree :=
  ((sampleOpened (.file content true)).set (sampleStorage ++ ["r"] ++ ["a.py"])
    (.file content true)).set (sampleStorage ++ ["r"] ++ ["b"]) (.file [255] false)

theorem hasSample_sampleCopied (content : List UInt8) :
    HasSample (sampleCopied content) (.file content true) :=
  ((hasSample_sampleOpened _).set ["r", "a.py"] _).set ["r", "b"] _

theorem fetch_sampleCopied (content : List UInt8) :
    fetch sampleLayout "/" "p" (sampleHost (.file content true)) =
      (.ok (sampleLayout.storage "p"), sampleCopied content) := by
  have opened := hasSample_sampleOpened (.file content true)
  refine fetch_sampleHost (.file (by simp) (size_sampleCopy (by decide)) ?_
    (copies_second (opened.set ["r", "a.py"] _) _))
  rw [opened.leads_ruleset.find?_join (by decide) (by simp [opened.first]), if_pos (by decide)]
  exact opened.first

/-- Links of a tree stand at some locations only. -/
def LinksIn (t : FileTree) (ls : List Location) : Prop :=
  ∀ m target, t.get? m = some (.link target) → m ∈ ls

namespace LinksIn

variable {t : FileTree} {ls : List Location}

theorem empty (ls : List Location) : LinksIn FileTree.empty ls := by
  intro m target link
  cases m with
  | nil => cases link
  | cons name m =>
    rw [get?_empty (List.cons_ne_nil name m)] at link
    cases link

theorem erase (h : LinksIn t ls) (l : Location) : LinksIn (t.erase l) ls :=
  fun m target link => h m target (get?_of_get?_erase link)

theorem set (h : LinksIn t ls) {l : Location} {e : Entry}
    (he : l ∈ ls ∨ ∀ target, e ≠ .link target) : LinksIn (t.set l e) ls := by
  intro m target link
  by_cases hl : m = l
  · by_cases hnil : l = []
    · cases (hl.trans hnil) ▸ link
    · rw [hl, get?_set_self t hnil] at link
      exact hl ▸ he.resolve_right fun other => other target (Option.some.inj link)
  · rw [get?_set_of_ne t hl] at link
    exact h m target link

theorem sampleOpened {first : Entry}
    (hfirst : ["p", "r", "a.py"] ∈ ls ∨ ∀ target, first ≠ .link target) :
    LinksIn (sampleOpened first) ls := by
  have host : LinksIn (sampleHost first) ls :=
    ((((((((((empty ls).set (.inr (by simp))).set (.inr (by simp))).set (.inr (by simp))).set
      (.inr (by simp))).set (.inr (by simp))).set (.inr (by simp))).set (.inr (by simp))).set
      hfirst).set (.inr (by simp)))
  exact ((host.erase _).set (.inr (by simp))).set (.inr (by simp))

end LinksIn

theorem linksIn_sampleCopied (content : List UInt8) : LinksIn (sampleCopied content) [] :=
  ((LinksIn.sampleOpened (.inr (by simp))).set (.inr (by simp))).set (.inr (by simp))

theorem fetch_replaces_sampleHost :
    let t := sampleHost (.file [] true)
    let s := storageAt ["cfg", "rules"] "p"
    let origin := Source.resolve "/" "p"
    let p := sampleLayout.storage "p"
    t.WellFormed ∧ t.get? t.cwd = some .directory ∧ sampleLayout.Steady t "p" ∧
    Outside t origin ["p"] s ∧ ∃ u, fetch sampleLayout "/" "p" t = (.ok p, u) ∧ u.Leads p s ∧
      LinksAvoid u origin ["p"] s ∧
      (∀ m, ¬s <+: m → u.get? m = t.get? m ∨
        t.get? m = none ∧ u.get? m = some .directory ∧ m <+: s) ∧
      (∀ rel e, u.get? (s ++ rel) = some e ↔ Keeps u origin ["p"] rel e) ∧
      ∃ u', fetch sampleLayout "/" "p" u = (.ok p, u') ∧ u.Same u' := by
  intro t s origin p
  have steady := (rooted_sampleHost (.file [] true)).steady "p"
  have run := fetch_sampleCopied []
  have outside : Outside t origin ["p"] s := by
    refine ⟨(HasSample.host _).leads_source, by simp [s, storageAt], .inl fun target link => ?_⟩
    rw [show t.get? s = some .directory by
      simp [t, s, sampleHost, sampleStorage, storageAt, get?_set]] at link
    cases link
  have links : LinksAvoid (sampleCopied []) origin ["p"] s := fun rel target _ _ _ link =>
    absurd (linksIn_sampleCopied [] _ target link) List.not_mem_nil
  obtain ⟨-, r, rules, leads, frame, mirror⟩ :=
    fetch_replaces (wellFormed_sampleHost (.file [] true)) rfl steady run
  obtain rfl := (hasSample_sampleCopied []).leads_rulesDir.unique rules
  obtain ⟨all, again⟩ := mirror ["p"] outside
  exact ⟨wellFormed_sampleHost _, rfl, steady, outside, sampleCopied [], run, leads, links, frame,
    all (by decide) links, again⟩

/-! ### A link to what is stored -/

/-- The host with a link to the copy of the second entry. -/
def sampleLink : Entry :=
  .link (Path.join (Path.join (sampleLayout.storage "p") "r") "b")

/-- The link leads to the copy, as long as that is there. -/
theorem HasSample.find?_link {t : FileTree} (h : HasSample t sampleLink)
    (stored : t.get? sampleStorage = some .directory)
    (ruleset : t.get? (sampleStorage ++ ["r"]) = some .directory)
    (copy : ∀ target, t.get? (sampleStorage ++ ["r"] ++ ["b"]) ≠ some (.link target)) :
    t.find? (Path.join (Path.join (Source.resolve "/" "p") "r") "a.py") =
      t.get? (sampleStorage ++ ["r"] ++ ["b"]) := by
  have hash := Source.isName_hash "p"
  have r : IsName "r" := by decide
  have b : IsName "b" := by decide
  obtain ⟨target, hlink, htarget⟩ :
      ∃ target, sampleLink = .link target ∧
        target = Path.join (Path.join (sampleLayout.storage "p") "r") "b" := ⟨_, rfl, rfl⟩
  have names : pathNames target = ["cfg", "rules", Source.hash "p", "r", "b"] := by
    rw [htarget, pathNames_join b (r.join_ne_empty _) (r.getLast?_join _), Layout.storage,
      Source.storage, pathNames_join r (hash.join_ne_empty _) (hash.getLast?_join _),
      pathNames_join hash (by decide) (by decide)]
    rfl
  have absolute : Path.isAbsolute target = true := by
    rw [htarget, Path.isAbsolute_join b (r.join_ne_empty _), Layout.storage, Source.storage,
      Path.isAbsolute_join r (hash.join_ne_empty _), Path.isAbsolute_join hash (by decide)]
    rfl
  have way : t.walk true linkLimit []
      (pathNames (Path.join (Path.join (Source.resolve "/" "p") "r") "a.py")) =
      some (sampleStorage ++ ["r"] ++ ["b"]) := by
    rw [show pathNames (Path.join (Path.join (Source.resolve "/" "p") "r") "a.py") =
      ["p", "r", "a.py"] by decide]
    refine (walk_of_directory (by decide) h.source).trans
      ((walk_of_directory r h.ruleset).trans ?_)
    rw [walk, if_neg (by decide), if_neg (by decide), if_neg (by decide)]
    simp only [List.nil_append, List.cons_append, h.first, hlink, linkLimit, List.isEmpty_nil,
      Bool.not_true, Bool.and_false, Bool.false_eq_true, if_false, absolute, if_true, names]
    exact (walk_of_directory (by decide) h.cfg).trans <|
      (walk_of_directory (by decide) h.rules).trans <|
      (walk_of_directory hash stored).trans <|
      (walk_of_directory r ruleset).trans <| walk_singleton_of_not_link b copy
  rw [find?_of_walk (by decide) (by decide) way, Option.bind_some]

/-- The host after the second entry was copied and the link was left. -/
def sampleLinked : FileTree :=
  (sampleOpened sampleLink).set (sampleStorage ++ ["r"] ++ ["b"]) (.file [255] false)

theorem stored_sampleOpened (first : Entry) :
    (sampleOpened first).get? sampleStorage = some .directory := by
  rw [sampleOpened, get?_set_of_ne _ (by simp)]
  exact (prepared_sampleHost first).2.2.stored

/-- In the end the link leads to the copy. -/
theorem find?_sampleLinked :
    sampleLinked.find? (Path.join (Path.join (Source.resolve "/" "p") "r") "a.py") =
      some (.file [255] false) := by
  have linked : HasSample sampleLinked sampleLink := (hasSample_sampleOpened _).set ["r", "b"] _
  have copy := get?_set_self (sampleOpened sampleLink) (l := sampleStorage ++ ["r"] ++ ["b"])
    (by simp) (.file [255] false)
  refine (linked.find?_link ?_ ?_ ?_).trans copy
  · rw [sampleLinked, get?_set_of_ne _ (by simp)]
    exact stored_sampleOpened sampleLink
  · rw [sampleLinked, get?_set_of_ne _ (by simp), sampleOpened]
    exact get?_set_self _ (by simp) _
  · intro target link
    cases copy.symm.trans link

theorem fetch_sampleLinked : fetch sampleLayout "/" "p" (sampleHost sampleLink) =
    (.ok (sampleLayout.storage "p"), sampleLinked) := by
  have opened := hasSample_sampleOpened sampleLink
  have missing : (sampleOpened sampleLink).get? (sampleStorage ++ ["r"] ++ ["b"]) = none := by
    rw [List.append_assoc]
    exact get?_sampleOpened_storage _ (by simp) (by simp)
  refine fetch_sampleHost (.leave (by simp [sampleLink]) (fun content executable file => ?_)
    (copies_second opened _))
  rw [opened.find?_link (stored_sampleOpened _) (get?_set_self _ (by simp) _)
    (fun _ => by simp only [missing]; simp), missing] at file
  cases file

theorem leads_sampleLinked : sampleLinked.Leads (sampleLayout.storage "p") sampleStorage := by
  have linked : HasSample sampleLinked sampleLink := (hasSample_sampleOpened _).set ["r", "b"] _
  refine linked.leads_rulesDir.join (Source.isName_hash "p")
    (size_sampleStorage.trans_lt (by decide)) ?_
  rw [sampleLinked, get?_set_of_ne _ (by simp [sampleStorage, storageAt])]
  exact stored_sampleOpened sampleLink

/-- A link to what is stored is a link to a file before and after the fetch, but not when its turn
comes. -/
theorem storage_not_mirror :
    let t := sampleHost sampleLink
    let s := storageAt ["cfg", "rules"] "p"
    let origin := Source.resolve "/" "p"
    let p := sampleLayout.storage "p"
    t.WellFormed ∧ t.Leads origin ["p"] ∧ ¬s <+: ["p"] ∧
    ∃ u, fetch sampleLayout "/" "p" t = (.ok p, u) ∧ u.Leads p s ∧
      ¬(∀ rel e, u.get? (s ++ rel) = some e ↔ Keeps t origin ["p"] rel e) ∧
      ¬(∀ rel e, u.get? (s ++ rel) = some e ↔ Keeps u origin ["p"] rel e) := by
  intro t s origin p
  have host := HasSample.host sampleLink
  have linked : HasSample sampleLinked sampleLink := (hasSample_sampleOpened _).set ["r", "b"] _
  have missing : sampleLinked.get? (s ++ ["r", "a.py"]) = none := by
    rw [sampleLinked, get?_set_of_ne _ (by simp [s, sampleStorage])]
    exact get?_sampleOpened_storage _ (by simp) (by simp)
  have kept {w : FileTree} {content : List UInt8} (h : HasSample w sampleLink)
      (shown : w.find? (Path.join (Path.join origin "r") "a.py") = some (.file content false)) :
      Keeps w origin ["p"] ["r", "a.py"] (.file content false) :=
    .inside h.ruleset (by decide) (.linked h.first shown)
  refine ⟨wellFormed_sampleHost _, host.leads_source, by simp [s, storageAt], sampleLinked,
    fetch_sampleLinked, leads_sampleLinked, ?_, ?_⟩
  · intro mirror
    have old : t.get? (sampleStorage ++ ["r"] ++ ["b"]) = some (.file [254] false) := by
      simp [t, sampleHost, sampleStorage, storageAt, get?_set]
    have shown := host.find?_link
      (by simp [sampleHost, sampleStorage, storageAt, get?_set])
      (by simp [sampleHost, sampleStorage, storageAt, get?_set]) fun _ => by
        simp [sampleHost, sampleStorage, storageAt, get?_set]
    cases missing.symm.trans ((mirror _ _).2 (kept host (shown.trans old)))
  · intro mirror
    cases missing.symm.trans ((mirror _ _).2 (kept linked find?_sampleLinked))

end HouseRules.Fetch
