import HouseRules.Proofs.Fetch.Replacement
import HouseRules.Proofs.Fetch.Sources

/-! Runs over several sources that a source ends which cannot be fetched at all. It changes nothing
itself: the sources before it have their storages as they left them, and the storages of others are
as they were. -/

namespace HouseRules.Fetch

open FileTree Layout

-- only that digests are names matters, never what they are
attribute [local irreducible] Source.hash

variable {layout : Layout} {base location other p : String} {t u v w : FileTree} {r : Location}
  {sources first rest storages : List String} {error : Error}

/-! ### Sources that cannot be fetched -/

/-- What is wrong with a source before anything is done for it: it is remote, or else it is no
directory. -/
inductive Fails (t : FileTree) (base location : String) : Error → Prop
  | remote (mark : "://".toList <:+: location.toList ∨ "git@".toList <:+: location.toList) :
      Fails t base location (.unsupportedSource location)
  | missing
      (isLocal : ¬("://".toList <:+: location.toList ∨ "git@".toList <:+: location.toList))
      (absent : t.isDirectory (Source.resolve base location) = false) :
      Fails t base location (.notFound (Source.resolve base location))

/-- A tree in which sources can be fetched one after another: the rules directory keeps its place,
and it is there or can be made. -/
structure Sound (layout : Layout) (t : FileTree) : Prop where
  wellFormed : t.WellFormed
  rooted : layout.Rooted t
  start : t.get? t.cwd = some .directory ∨ ∃ r, t.Leads layout.rulesDir r

namespace Sound

theorem exists_fetched (sound : Sound layout t)
    (h : fetch layout base location t = (.ok p, u)) :
    p = layout.storage location ∧ ∃ made r inside,
      Fetched layout (Source.resolve base location) location t u made r inside := by
  have steady := sound.rooted.steady location
  obtain ⟨storage, -, -, fetched⟩ := Fetch.exists_fetched (fun hclear hmade => by
    obtain hcwd | ⟨r, leads⟩ := sound.start
    · exact exists_prepared sound.wellFormed hcwd steady hclear hmade
    · exact ⟨r, prepared_of_leads sound.wellFormed leads (steady.kept r leads) hclear hmade⟩) h
  exact ⟨storage, fetched⟩

theorem fetch (sound : Sound layout t) (h : fetch layout base location t = (.ok p, u)) :
    Sound layout u := by
  obtain ⟨-, made, r, inside, fetched⟩ := sound.exists_fetched h
  exact ⟨fetched.grown.wellFormed, fetched.rooted sound.rooted, .inr ⟨r, fetched.leads_rulesDir⟩⟩

theorem fetchAll (sound : Sound layout t)
    (h : fetchAll layout base sources t = (.ok storages, u)) : Sound layout u := by
  induction sources generalizing t storages with
  | nil =>
    cases h
    exact sound
  | cons location rest ih =>
    obtain ⟨storage, others, w, run, runs⟩ := fetchAll_cons_eq_ok h
    exact ih (sound.fetch run) runs

end Sound

/-- A run leaves the rules directory where it was. -/
theorem FetchedAll.eq_of_leads (h : FetchedAll layout base r sources t u) {l : Location}
    (before : t.Leads layout.rulesDir l) (after : u.Leads layout.rulesDir r) : l = r := by
  cases h with
  | nil => exact before.unique after
  | cons fetched _ => exact (fetched.eq_of_leads before).symm

end HouseRules.Fetch
