import BoundedTuring.Proofs.Alphabet.Tokens
import BoundedTuring.Simulation.Report
import Mathlib.Data.List.Nodup
/-!
# What a report says of its records

A report stores its records once and what follows from them besides: the tallies, the headline and where the record of a
word is.  Each of these says of the records what it should (`get_tallies`, `total_tallies`, `record?_eq_some_iff`), the
last one because no word is tested twice, so that no place in the index hides another.  A report on words over an
alphabet has a spelling over it (`toJson_ok`).
-/
namespace BoundedTuring

namespace Json

/-- The value of a field of an object. -/
def field? (name : String) : Json → Option Json
  | object fields => fields.lookup name
  | _ => none

/-- **The fields of an object, sorted as they are, are the ones it was made of.** -/
theorem field?_ofFields {fields : List (String × Json)} (hnames : (fields.map Prod.fst).Nodup) {name : String}
    {value : Json} (h : (name, value) ∈ fields) : (ofFields fields).field? name = some value := by
  have hperm := List.mergeSort_perm fields (fun a b => !decide (b.1 < a.1))
  exact (lookup_eq_some_iff_mem ((hperm.map Prod.fst).nodup_iff.2 hnames) _ _).2 (hperm.mem_iff.2 h)

end Json

/-! ## Tallies -/

namespace Tallies

theorem get_record (t : Tallies) (o o' : Outcome) :
    (t.record o').get o = t.get o + if o' == o then 1 else 0 := by
  cases o <;> cases o' <;> rfl

theorem total_record (t : Tallies) (o : Outcome) : (t.record o).total = t.total + 1 := by
  cases o <;> simp only [record, total] <;> omega

theorem get_foldl (o : Outcome) : ∀ (outcomes : List Outcome) (t : Tallies),
    (outcomes.foldl record t).get o = t.get o + outcomes.count o
  | [], _ => rfl
  | o' :: outcomes, t => by
    rw [List.foldl_cons, get_foldl o outcomes, get_record, List.count_cons]
    omega

theorem total_foldl : ∀ (outcomes : List Outcome) (t : Tallies),
    (outcomes.foldl record t).total = t.total + outcomes.length
  | [], _ => rfl
  | o :: outcomes, t => by
    rw [List.foldl_cons, total_foldl outcomes, total_record, List.length_cons]
    omega

end Tallies

namespace SimulationReport

variable {records : List TestRecord}

theorem get_tallies (records : List TestRecord) (o : Outcome) :
    (ofRecords records).tallies.get o = records.countP (fun record => record.2.outcome == o) := by
  have hget : (ofRecords records).tallies.get o = Tallies.zero.get o + (records.map (·.2.outcome)).count o :=
    Tallies.get_foldl o _ _
  have hzero : Tallies.zero.get o = 0 := by cases o <;> rfl
  rw [hget, hzero, Nat.zero_add, List.count_eq_countP, List.countP_map]
  rfl

theorem total_tallies (records : List TestRecord) : (ofRecords records).tallies.total = records.length := by
  have htotal : (ofRecords records).tallies.total = Tallies.zero.total + (records.map (·.2.outcome)).length :=
    Tallies.total_foldl _ _
  rw [htotal, List.length_map]
  exact Nat.zero_add _

theorem summary_of_many (h : 2 ≤ records.length) :
    (ofRecords records).summary = .aggregate (ofRecords records).tallies := by
  match records, h with
  | _ :: _ :: _, _ => rfl

/-! ## The index -/

theorem indexRecords_eq (records : List TestRecord) :
    indexRecords records = (records.zipIdx.map (fun (record, place) => (record.1, place))).reverse := by
  have hfold : indexRecords records = (records.zipIdx.map (fun (record, place) => (record.1, place))).reverse ++ [] :=
    List.foldl_flip_cons_eq_append
  rw [hfold, List.append_nil]

theorem mem_indexRecords_iff (records : List TestRecord) (w : Word) (place : Nat) :
    (w, place) ∈ indexRecords records ↔ ∃ report, records[place]? = some (w, report) := by
  rw [indexRecords_eq, List.mem_reverse, List.mem_map]
  constructor
  · rintro ⟨⟨⟨v, report⟩, place'⟩, hmem, heq⟩
    cases heq
    exact ⟨report, List.mem_zipIdx_iff_getElem?.1 hmem⟩
  · rintro ⟨report, hreport⟩
    exact ⟨((w, report), place), List.mem_zipIdx_iff_getElem?.2 hreport, rfl⟩

theorem nodup_indexRecords (hwords : (records.map Prod.fst).Nodup) :
    ((indexRecords records).map Prod.fst).Nodup := by
  have hkeys : (indexRecords records).map Prod.fst = (records.map Prod.fst).reverse := by
    have hfst : (Prod.fst ∘ fun (record, place) => (record.1, place) : TestRecord × Nat → Word) =
        Prod.fst ∘ Prod.fst := rfl
    rw [indexRecords_eq, List.map_reverse, List.map_map, hfst, ← List.map_map, List.zipIdx_map_fst]
  rw [hkeys]
  exact List.nodup_reverse.2 hwords

/-- **With every word tested once, the record of a word is the one among the records.** -/
theorem record?_eq_some_iff (hwords : (records.map Prod.fst).Nodup) (w : Word) (report : RunReport) :
    (ofRecords records).record? w = some report ↔ (w, report) ∈ records := by
  have hlookup : ∀ place, (indexRecords records).lookup w = some place ↔
      ∃ report, records[place]? = some (w, report) := fun place =>
    (lookup_eq_some_iff_mem (nodup_indexRecords hwords) w place).trans (mem_indexRecords_iff records w place)
  have hrecord : (ofRecords records).record? w =
      ((indexRecords records).lookup w).bind (fun place => records[place]?.map Prod.snd) := by
    unfold record? ofRecords
    dsimp only
    cases (indexRecords records).lookup w <;> rfl
  rw [hrecord, Option.bind_eq_some_iff, List.mem_iff_getElem?]
  constructor
  · rintro ⟨place, hplace, hreport⟩
    -- the record at the place is one of this word, so its report is the one that was read there
    obtain ⟨report', hat⟩ := (hlookup place).1 hplace
    rw [hat] at hreport
    cases hreport
    exact ⟨place, hat⟩
  · rintro ⟨place, hat⟩
    refine ⟨place, (hlookup place).2 ⟨report, hat⟩, ?_⟩
    rw [hat]
    rfl

/-! ## As JSON -/

/-- What a report spells of a record: its word, how the run ended and after how many steps. -/
structure Spells (a : InputAlphabet) (item : Json) (record : TestRecord) : Prop where
  input : ∃ text, a.render record.1 = .ok text ∧ item.field? "input" = some (.text text)
  outcome : item.field? "outcome" = some (.text record.2.outcome.name)
  stepCount : item.field? "step_count" = some (.number record.2.stepCount)

variable {a : InputAlphabet}

theorem spells_recordJson {w : Word} {text : String} (htext : a.render w = .ok text) (report : RunReport) :
    Spells a (recordJson text report) (w, report) := by
  unfold recordJson
  exact ⟨⟨text, htext, Json.field?_ofFields (by simp) (by simp)⟩, Json.field?_ofFields (by simp) (by simp),
    Json.field?_ofFields (by simp) (by simp)⟩

theorem recordsJson_ok (hover : ∀ record ∈ records, ∀ s ∈ record.1, s < a.size) :
    ∃ items, records.mapM (fun (w, report) => do return recordJson (← a.render w) report) = .ok items ∧
      List.Forall₂ (Spells a) items records := by
  refine Result.mapM_ok_of_forall records fun ⟨w, report⟩ hmem => ?_
  obtain ⟨text, htext⟩ := a.render_ok_of_lt (hover _ hmem)
  exact ⟨recordJson text report, (Result.bind_ok_iff ..).2 ⟨text, htext, rfl⟩, spells_recordJson htext report⟩

theorem summaryJson_ok (hover : ∀ record ∈ records, ∀ s ∈ record.1, s < a.size) :
    ∃ json, summaryJson a (ofRecords records).summary = .ok json := by
  match records with
  | [] => exact ⟨_, rfl⟩
  | [(w, report)] =>
    obtain ⟨text, htext⟩ := a.render_ok_of_lt (hover _ List.mem_cons_self)
    exact ⟨_, (Result.bind_ok_iff ..).2 ⟨text, htext, rfl⟩⟩
  | _ :: _ :: _ => exact ⟨_, rfl⟩

/-- **A report on words over an alphabet has a spelling over it**, which lists the records in their order. -/
theorem toJson_ok (hover : ∀ record ∈ records, ∀ s ∈ record.1, s < a.size) :
    ∃ json items, (ofRecords records).toJson a = .ok json ∧ json.field? "records" = some (.list items) ∧
      List.Forall₂ (Spells a) items records := by
  obtain ⟨items, hitems, hspells⟩ := recordsJson_ok hover
  obtain ⟨summary, hsummary⟩ := summaryJson_ok hover
  refine ⟨_, items, (Result.bind_ok_iff ..).2 ⟨items, hitems, (Result.bind_ok_iff ..).2 ⟨summary, hsummary, rfl⟩⟩,
    ?_, hspells⟩
  exact Json.field?_ofFields (by simp) (by simp)

end SimulationReport
end BoundedTuring
