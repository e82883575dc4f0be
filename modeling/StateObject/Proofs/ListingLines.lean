/-
  StateObject.Proofs.ListingLines — what a listing shows, and on how many lines.

  - `Payload.answers_iff`: of the readers of a payload one answers, that of its kind. So the
    summary of a subobject never stops at the name (`Subobject.summary_eq`).
  - `Subobject.lineEnds_summary`: a summary has the line ends of the strings that it quotes
    and no others. Kinds, flags, numbers and what stands between have none, and the dash for
    a stage that is not bound replaces a string that has none.
  - `Inventory.lineEnds_listing`: a listing has one line end more than it has subobjects, and
    those of the strings that it quotes.
  - `Inventory.onePerLine_iff`: so each subobject has a line of its own exactly if no string
    of any of them breaks it.
  - `listing_shows_payloads_by_line`: all of this of the listing of a reachable catalog.
-/

import Mathlib.Algebra.Ring.Nat
import StateObject.Proofs.Simulation

namespace StateObject

/-! ## Line ends -/

namespace Text

def lineEnds (s : String) : Nat := s.toList.count '\n'

/-- The text cut at its line ends. What follows the last of them is a line too, if only of
    no characters. -/
def lines (s : String) : List String := (s.toList.splitOn '\n').map String.ofList

theorem lineEnds_eq_zero_iff {s : String} : lineEnds s = 0 ↔ '\n' ∉ s.toList := List.count_eq_zero

@[simp] theorem lineEnds_append (s t : String) : lineEnds (s ++ t) = lineEnds s + lineEnds t := by
  simp only [lineEnds, String.toList_append, List.count_append]

theorem lineEnds_intercalate {sep : String} (h : lineEnds sep = 0) (ss : List String) :
    lineEnds (sep.intercalate ss) = (ss.map lineEnds).sum := by
  induction ss with
  | nil => rfl
  | cons s ss ih =>
    cases ss with
    | nil => simp
    | cons u us =>
      rw [String.intercalate_cons_cons, lineEnds_append, lineEnds_append, h, ih]
      rfl

@[simp] theorem lineEnds_repr (n : Nat) : lineEnds n.repr = 0 := by
  rw [lineEnds_eq_zero_iff, Nat.repr_eq_ofList_toDigits, String.toList_ofList]
  intro h
  have hdigit := Nat.isDigit_of_mem_toDigits (by decide) (by decide) h
  exact absurd hdigit (by decide)

@[simp] theorem lineEnds_toString (n : UInt32) : lineEnds (toString n) = 0 := lineEnds_repr n.toNat

theorem length_lines (s : String) : (lines s).length = lineEnds s + 1 := by
  rw [lines, lineEnds, List.length_map, List.splitOn_eq_splitOnP]
  induction s.toList with
  | nil => rfl
  | cons c cs ih =>
    rw [List.splitOnP_cons_eq_if_modifyHead, List.count_cons]
    split
    · rw [List.length_cons, ih]
    · rw [List.length_modifyHead, ih]

theorem lines_intercalate {ls : List String} (hne : ls ≠ []) (h : ∀ l ∈ ls, lineEnds l = 0) :
    lines ("\n".intercalate ls) = ls := by
  have hcut : (['\n'].intercalate (ls.map String.toList)).splitOn '\n' = ls.map String.toList := by
    refine List.splitOn_intercalate '\n' ?_ (by simpa using hne)
    intro l hl
    obtain ⟨s, hs, rfl⟩ := List.mem_map.mp hl
    exact lineEnds_eq_zero_iff.mp (h s hs)
  rw [lines, String.toList_intercalate, show "\n".toList = ['\n'] from rfl, hcut, List.map_map]
  exact (List.map_congr_left fun l _ => String.ofList_toList).trans (List.map_id ls)

/-- Where each line is ended, an empty one follows the last end. -/
theorem join_ended (ls : List String) : String.join (ls.map (· ++ "\n")) = "\n".intercalate (ls ++ [""]) := by
  induction ls with
  | nil => rfl
  | cons l ls ih =>
    rw [List.map_cons, String.join_cons, ih, List.cons_append, String.intercalate_cons_of_ne_nil (by simp)]

end Text

open Text (lineEnds lines)

/-! ## Readers -/

namespace Payload

variable {φ σ ρ : Type}

/-- Whether the reader of the kind answers. -/
def answers (p : Payload φ σ ρ) : Kind → Bool
  | .stateObjectConfig => p.configFlags?.isSome
  | .rootSignature scope => (p.rootSignature? scope).isSome
  | .association => p.association?.isSome
  | .shaderConfig => p.shaderConfig?.isSome
  | .pipelineConfig => p.pipelineConfig?.isSome
  | .hitGroup => p.hitGroup?.isSome

/-- A reader answers for its own kind alone. -/
theorem answers_iff (p : Payload φ σ ρ) (k : Kind) : p.answers k = true ↔ k = p.kind := by
  cases k with
  | stateObjectConfig => cases p <;> simp [answers, configFlags?, kind]
  | rootSignature scope =>
    cases p with
    | rootSignature s r => simp [answers, rootSignature?, kind, eq_comm (a := scope)]
    | _ => simp [answers, rootSignature?, kind]
  | association => cases p <;> simp [answers, association?, kind]
  | shaderConfig => cases p <;> simp [answers, shaderConfig?, kind]
  | pipelineConfig => cases p <;> simp [answers, pipelineConfig?, kind]
  | hitGroup => cases p <;> simp [answers, hitGroup?, kind]

/-- The reader of the payload's own kind tells what there is to tell. -/
theorem summaryAs?_kind (contents : Contents) : contents.summaryAs? contents.kind = some contents.summary := by
  cases contents with
  | rootSignature scope r => simp [summaryAs?, kind, rootSignature?, summary]
  | _ => rfl

end Payload

theorem Subobject.summary_eq (s : Subobject) :
    s.summary = s.kind.name ++ " '" ++ s.name ++ "': " ++ s.contents.summary := by
  have hread : s.contents.summaryAs? s.kind = some s.contents.summary := Payload.summaryAs?_kind s.contents
  have hquote : "': " = "'" ++ ": " := rfl
  simp only [summary, hread, heading, hquote, String.append_assoc]

/-! ## Summaries -/

theorem Kind.lineEnds_name (k : Kind) : lineEnds k.name = 0 := by
  rcases k with _ | ⟨_ | _⟩ | _ | _ | _ | _ <;> rfl

theorem ConfigFlags.lineEnds_summary (f : ConfigFlags) : lineEnds f.summary = 0 := by
  rw [summary]
  split <;> rfl

theorem RootSignature.lineEnds_summary (r : RootSignature Bytes) : lineEnds r.summary = 0 := by
  have hunit : lineEnds " bytes" = 0 := rfl
  simp [summary, hunit]

theorem Association.lineEnds_summary (a : Association String) :
    lineEnds a.summary = ((a.target :: a.exports).map lineEnds).sum := by
  have harrow : lineEnds " -> " = 0 := rfl
  have hopen : lineEnds "[" = 0 := rfl
  have hsep : lineEnds ", " = 0 := rfl
  have hclose : lineEnds "]" = 0 := rfl
  simp [summary, Text.listed, harrow, hopen, Text.lineEnds_intercalate hsep, hclose]

theorem ShaderConfig.lineEnds_summary (c : ShaderConfig) : lineEnds c.summary = 0 := by
  have hpayload : lineEnds "payload=" = 0 := rfl
  have hattributes : lineEnds ", attributes=" = 0 := rfl
  -- Not by the equation of `summary`, here and below: with all these literals Lean takes seconds to prove it.
  delta summary
  simp [hpayload, hattributes]

theorem PipelineConfig.lineEnds_summary (c : PipelineConfig) : lineEnds c.summary = 0 := by
  have hlabel : lineEnds "max_recursion=" = 0 := rfl
  delta summary
  simp [hlabel]

namespace HitGroup

theorem lineEnds_orDash (shader : String) : lineEnds (orDash shader) = lineEnds shader := by
  rw [orDash]
  split
  · rename_i h
    rw [String.isEmpty_iff.mp h]
    rfl
  · rfl

theorem lineEnds_summary (g : HitGroup String) :
    lineEnds g.summary = ([g.intersection, g.anyHit, g.closestHit].map lineEnds).sum := by
  have hintersection : lineEnds "intersection=" = 0 := rfl
  have hanyHit : lineEnds ", anyhit=" = 0 := rfl
  have hclosestHit : lineEnds ", closesthit=" = 0 := rfl
  delta summary
  simp [lineEnds_orDash, hintersection, hanyHit, hclosestHit]
  omega

end HitGroup

theorem Payload.lineEnds_summary (contents : Contents) :
    lineEnds contents.summary = (contents.names.map lineEnds).sum := by
  cases contents with
  | stateObjectConfig f => exact f.lineEnds_summary
  | rootSignature scope r => exact r.lineEnds_summary
  | association a => exact a.lineEnds_summary
  | shaderConfig c => exact c.lineEnds_summary
  | pipelineConfig c => exact c.lineEnds_summary
  | hitGroup g => exact g.lineEnds_summary

namespace Subobject

/-- The strings that the summary quotes: the name, and a target with its exports or the
    stages. -/
def quotes (s : Subobject) : List String := s.name :: s.contents.names

/-- How often the strings that the summary quotes break its line. -/
def breaks (s : Subobject) : Nat := (s.quotes.map lineEnds).sum

theorem lineEnds_summary (s : Subobject) : lineEnds s.summary = s.breaks := by
  have hopen : lineEnds " '" = 0 := rfl
  have hclose : lineEnds "': " = 0 := rfl
  rw [summary_eq]
  simp [breaks, quotes, Kind.lineEnds_name, Payload.lineEnds_summary, hopen, hclose]

theorem breaks_eq_zero_iff (s : Subobject) : s.breaks = 0 ↔ ∀ t ∈ s.quotes, '\n' ∉ t.toList := by
  rw [breaks, List.sum_eq_zero_iff_forall_eq_nat, List.forall_mem_map]
  simp only [Text.lineEnds_eq_zero_iff]

end Subobject

/-! ## Listings -/

/-- A first line with their number, and then one line for each of them, in order. -/
def listingRows (subs : List Subobject) : List String :=
  ("Subobjects (" ++ toString subs.length ++ "):") :: subs.map fun s => "  " ++ s.summary

/-- Each subobject has a line of its own, and nothing follows the last line end. -/
def OnePerLine (subs : List Subobject) (text : String) : Prop := lines text = listingRows subs ++ [""]

theorem length_listingRows (subs : List Subobject) : (listingRows subs).length = subs.length + 1 := by
  simp [listingRows]

theorem lineEnds_of_mem_listingRows {subs : List Subobject} (h : (subs.map (·.breaks)).sum = 0) {row : String}
    (hrow : row ∈ listingRows subs) : lineEnds row = 0 := by
  rcases List.mem_cons.mp hrow with rfl | hrow
  · have hopen : lineEnds "Subobjects (" = 0 := rfl
    have hclose : lineEnds "):" = 0 := rfl
    simp [hopen, hclose]
  · obtain ⟨s, hs, rfl⟩ := List.mem_map.mp hrow
    have hindent : lineEnds "  " = 0 := rfl
    have hbreaks : s.breaks = 0 := List.sum_eq_zero_iff_forall_eq_nat.mp h _ (List.mem_map_of_mem hs)
    rw [Text.lineEnds_append, hindent, s.lineEnds_summary, hbreaks]

theorem lineEnds_listingLines (subs : List Subobject) :
    lineEnds (String.join (subs.map Catalog.listingLine)) = subs.length + (subs.map (·.breaks)).sum := by
  have hindent : lineEnds "  " = 0 := rfl
  have hend : lineEnds "\n" = 1 := rfl
  induction subs with
  | nil => rfl
  | cons s subs ih =>
    rw [List.map_cons, String.join_cons, Text.lineEnds_append, ih, List.map_cons, List.sum_cons, List.length_cons]
    simp only [Catalog.listingLine, Text.lineEnds_append, s.lineEnds_summary, hindent, hend]
    omega

namespace Inventory

theorem listing_eq_join (inv : Inventory) :
    inv.listing = String.join ((listingRows inv.subobjects).map (· ++ "\n")) := by
  have hfirst : "):\n" = "):" ++ "\n" := rfl
  rw [listing, listingRows, List.map_cons, List.map_map, String.join_cons, hfirst, ← String.append_assoc]
  rfl

theorem lineEnds_listing (inv : Inventory) :
    lineEnds inv.listing = inv.subobjects.length + 1 + (inv.subobjects.map (·.breaks)).sum := by
  have hopen : lineEnds "Subobjects (" = 0 := rfl
  have hclose : lineEnds "):\n" = 1 := rfl
  simp only [listing, Text.lineEnds_append, Nat.toString_eq_repr, Text.lineEnds_repr, hopen, hclose,
    lineEnds_listingLines]
  omega

/-- Were a row broken, the listing would have more lines than rows. -/
theorem onePerLine_iff (inv : Inventory) :
    OnePerLine inv.subobjects inv.listing ↔ ∀ s ∈ inv.subobjects, ∀ t ∈ s.quotes, '\n' ∉ t.toList := by
  have hsum : (inv.subobjects.map (·.breaks)).sum = 0 ↔ ∀ s ∈ inv.subobjects, ∀ t ∈ s.quotes, '\n' ∉ t.toList := by
    rw [List.sum_eq_zero_iff_forall_eq_nat, List.forall_mem_map]
    simp only [Subobject.breaks_eq_zero_iff]
  rw [← hsum]
  constructor
  · intro h
    have hlength := congrArg List.length h
    rw [Text.length_lines, lineEnds_listing, List.length_append, length_listingRows, List.length_singleton] at hlength
    omega
  · intro h
    rw [OnePerLine, listing_eq_join, Text.join_ended]
    refine Text.lines_intercalate (by simp) ?_
    intro row hrow
    rcases List.mem_append.mp hrow with hrow | hrow
    · exact lineEnds_of_mem_listingRows h hrow
    · rw [List.mem_singleton.mp hrow]
      rfl

end Inventory

/-! ## Reachable catalogs -/

namespace Catalog

variable {c : Catalog}

/-- Of each subobject one reader answers, whether it is asked of the entry or of what the
    entry reads as: that of its kind. So a summary always tells the payload. The listing is
    a first line and the summaries, in order, each between two blanks and a line end; it has
    the line ends that are needed for this, and those of the strings that it quotes. Each
    subobject has a line of its own exactly if there are none of the latter. -/
theorem listing_shows_payloads_by_line (hc : Reachable c) :
    ∃ subs text, c.subobjects = .ok subs ∧ c.listing = .ok text ∧
      (∀ v ∈ c.views, (∀ k, v.entry.payload.answers k = true ↔ k = v.kind) ∧
        ∃ s ∈ subs, v.read = .ok s ∧ (∀ k, s.contents.answers k = true ↔ k = v.kind) ∧
          s.summary = v.kind.name ++ " '" ++ s.name ++ "': " ++ s.contents.summary) ∧
      text = "Subobjects (" ++ toString c.size ++ "):\n" ++
        String.join (subs.map fun s => "  " ++ s.summary ++ "\n") ∧
      lineEnds text = c.size + 1 + (subs.map (·.breaks)).sum ∧
      (OnePerLine subs text ↔ ∀ s ∈ subs, ∀ t ∈ s.quotes, '\n' ∉ t.toList) := by
  obtain ⟨inv, hm⟩ := hc.matches
  have hsize : c.size = inv.subobjects.length := hm.holds.size_eq
  refine ⟨inv.subobjects, inv.listing, hm.holds.subobjects_eq, hm.listing_eq, ?_, ?_, ?_, inv.onePerLine_iff⟩
  · intro v hv
    obtain ⟨s, hs, hcopies⟩ := hm.holds.copies_of_mem_views hv
    have hkind : v.kind = s.kind := Pool.kind_of_resolve hcopies.resolve
    refine ⟨v.entry.payload.answers_iff, s, hs, hcopies.read, ?_, ?_⟩
    · rw [hkind]
      exact s.contents.answers_iff
    · rw [hkind]
      exact s.summary_eq
  · rw [hsize]
    rfl
  · rw [hsize]
    exact inv.lineEnds_listing

/-- Two strings hold a line end, an export and a stage. -/
theorem listing_of_broken_strings :
    let c := (make none).after [.create "rays" (.association ⟨"lights", ["hit\n", "miss"]⟩),
      .create "group" (.hitGroup ⟨"", "\n", "hit"⟩)]
    let subs : List Subobject :=
      [⟨"rays", .association ⟨"lights", ["hit\n", "miss"]⟩⟩, ⟨"group", .hitGroup ⟨"", "\n", "hit"⟩⟩]
    Reachable c ∧ c.subobjects = .ok subs ∧
      ∃ text, c.listing = .ok text ∧ lineEnds text = 5 ∧ ¬ OnePerLine subs text := by
  intro c subs
  have hc : Reachable c := (Reachable.make none).after (sourced_of_clones (by simp))
  have hsubs : c.subobjects = .ok subs := by decide +kernel
  obtain ⟨subs', text, hsubs', htext, -, -, hends, hlines⟩ := listing_shows_payloads_by_line hc
  obtain rfl : subs = subs' := Except.ok.inj (hsubs.symm.trans hsubs')
  refine ⟨hc, hsubs, text, htext, ?_, ?_⟩
  · rw [hends]
    decide +kernel
  · rw [hlines]
    intro h
    exact h _ List.mem_cons_self "hit\n" (by decide) (by decide)

end Catalog

end StateObject
