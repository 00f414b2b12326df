/-
  File:      ArgusPep/Argus/Decision.lean
  Subject:   Where the decisions of a response come from.

  * `resultObjects`, `decisionEntries` -- the results a response object holds, and the decision
    entries of one of them;
  * `DecisionOf` -- what a decision says of its entries: the last one, or Deny without one;
  * **`permit_never_invented`** -- each result of a response has the decision of its last entry, and
    one decision entry that is no decision makes the whole response fail.
-/
import ArgusPep.Argus.Records

namespace ArgusPep

open Lib Keyed

/-! ## 1. Decisions -/

/-- The `int` of a decision. -/
def XacmlDecision.toInt : XacmlDecision → CInt
  | .deny => 0#32
  | .permit => 1#32
  | .indeterminate => 2#32
  | .notApplicable => 3#32

theorem XacmlDecision.ofInt_eq_some {n : CInt} {d : XacmlDecision} :
    XacmlDecision.ofInt n = some d ↔ n = d.toInt := by
  unfold XacmlDecision.ofInt
  by_cases h₀ : n = 0#32
  · rw [if_pos h₀]
    cases d <;> simp [XacmlDecision.toInt, h₀]
  by_cases h₁ : n = 1#32
  · rw [if_neg h₀, if_pos h₁]
    cases d <;> simp [XacmlDecision.toInt, h₁]
  by_cases h₂ : n = 2#32
  · rw [if_neg h₀, if_neg h₁, if_pos h₂]
    cases d <;> simp [XacmlDecision.toInt, h₂]
  by_cases h₃ : n = 3#32
  · rw [if_neg h₀, if_neg h₁, if_neg h₂, if_pos h₃]
    cases d <;> simp [XacmlDecision.toInt, h₃]
  · rw [if_neg h₀, if_neg h₁, if_neg h₂, if_neg h₃]
    cases d <;> simp [XacmlDecision.toInt, h₀, h₁, h₂, h₃]

/-- An Integer in 0..3. -/
def IsDecision (value : HessianObject) : Prop :=
  ∃ n, value = .integer n ∧ 0 ≤ n.toInt ∧ n.toInt ≤ 3

theorem XacmlDecision.toInt_range (d : XacmlDecision) : 0 ≤ d.toInt.toInt ∧ d.toInt.toInt ≤ 3 := by
  cases d <;> decide

/-- A value that reads as a decision is the Integer of the decision. -/
theorem integer_of_decision {value : HessianObject} {d : XacmlDecision}
    (h : (Value.integer value).bind XacmlDecision.ofInt = some d) : value = .integer d.toInt := by
  obtain ⟨n, hn, hd⟩ := Option.bind_eq_some_iff.mp h
  have hv : value = .integer n := by
    cases value <;> simp_all [Value.integer]
  rw [hv, XacmlDecision.ofInt_eq_some.mp hd]

/-! ## 2. Results -/

/-- The results of a response: the elements of all the lists under its key. -/
def resultObjects (h : HessianObject) : List HessianObject :=
  (valuesUnder XACML_HESSIAN_RESPONSE_RESULTS h).flatMap elementsOf

def decisionEntries (hResult : HessianObject) : List HessianObject :=
  valuesUnder XACML_HESSIAN_RESULT_DECISION hResult

/-- The decision of a result: its last entry, or Deny without an entry. -/
def DecisionOf (hResult : HessianObject) (d : XacmlDecision) : Prop :=
  match (decisionEntries hResult).getLast? with
  | none => d = .deny
  | some value => value = .integer d.toInt

/-- Permit has an entry of its own. -/
theorem DecisionOf.permit {hResult : HessianObject} (h : DecisionOf hResult .permit) :
    (decisionEntries hResult).getLast? = some (.integer 1#32) := by
  unfold DecisionOf at h
  cases hl : (decisionEntries hResult).getLast? with
  | none =>
    rw [hl] at h
    cases h
  | some value =>
    rw [hl] at h
    exact congrArg some h

theorem xacmlResultUnmarshal_decision {h : HessianObject} {result : XacmlResult}
    (hu : xacmlResultUnmarshal h = some result) : DecisionOf h result.decision := by
  obtain ⟨es, hm, hd, -⟩ := xacmlResultUnmarshal_eq_some.mp hu
  have hlast := foldlM_enum hd
  rw [valuesAt_mapEntries hm] at hlast
  unfold DecisionOf decisionEntries
  cases hl : (valuesUnder XACML_HESSIAN_RESULT_DECISION h).getLast? with
  | none =>
    rw [hl] at hlast
    exact hlast
  | some value =>
    rw [hl] at hlast
    exact integer_of_decision hlast

theorem xacmlResultUnmarshal_entries {h : HessianObject} {result : XacmlResult}
    (hu : xacmlResultUnmarshal h = some result) : ∀ value ∈ decisionEntries h, IsDecision value := by
  obtain ⟨es, hm, hd, -⟩ := xacmlResultUnmarshal_eq_some.mp hu
  intro value hv
  obtain ⟨_, d, hread⟩ := foldlM_reads hd value (valuesAt_mapEntries hm ▸ hv)
  exact ⟨d.toInt, integer_of_decision hread, d.toInt_range⟩

/-! ## 3. Responses -/

/-- The results are the decoded elements, in order. -/
theorem xacmlResponseUnmarshal_results {h : HessianObject} {response : XacmlResponse}
    (hu : xacmlResponseUnmarshal h = some response) :
    (resultObjects h).map xacmlResultUnmarshal = response.results.map some := by
  obtain ⟨es, hm, -, hr⟩ := xacmlResponseUnmarshal_eq_some.mp hu
  obtain ⟨news, hnews, hread⟩ := foldlM_append hr
  rw [valuesAt_mapEntries hm] at hread
  rw [hnews]
  exact hread

/-- **A Permit is never invented.** The results of a response are the decoded elements of its
    lists, each with the decision of its last decision entry or Deny, and a Permit has an Integer 1
    there; a decision entry that is not an Integer in 0..3, in any result, fails the response. -/
theorem permit_never_invented (h : HessianObject) :
    (∀ response, xacmlResponseUnmarshal h = some response →
      (resultObjects h).map xacmlResultUnmarshal = response.results.map some
        ∧ List.Forall₂ (fun hResult result => DecisionOf hResult result.decision
            ∧ (result.decision = .permit →
                (decisionEntries hResult).getLast? = some (.integer 1#32)))
          (resultObjects h) response.results)
      ∧ ((∃ hResult ∈ resultObjects h, ∃ value ∈ decisionEntries hResult, ¬ IsDecision value) →
          xacmlResponseUnmarshal h = none) := by
  refine ⟨fun response hu => ?_, ?_⟩
  · have hresults := xacmlResponseUnmarshal_results hu
    refine ⟨hresults, forall₂_of_reads hresults fun o result ho => ?_⟩
    have hd := xacmlResultUnmarshal_decision ho
    exact ⟨hd, fun hp => (hp ▸ hd : DecisionOf o .permit).permit⟩
  · intro h
    obtain ⟨o, ho, value, hv, hbad⟩ := h
    rw [Option.eq_none_iff_forall_ne_some]
    intro response hu
    have hresults := xacmlResponseUnmarshal_results hu
    have hmem : xacmlResultUnmarshal o ∈ response.results.map some :=
      hresults ▸ List.mem_map_of_mem ho
    obtain ⟨result, -, hresult⟩ := List.mem_map.mp hmem
    exact hbad (xacmlResultUnmarshal_entries hresult.symm value hv)

/-- A response with one result, with so many decision entries. -/
def responseDeciding (decisions : List CInt) : HessianObject :=
  .map (some XACML_HESSIAN_RESPONSE_CLASSNAME)
    [(.string XACML_HESSIAN_RESPONSE_RESULTS, .list none
      [.map (some XACML_HESSIAN_RESULT_CLASSNAME)
        (decisions.map fun n => (.string XACML_HESSIAN_RESULT_DECISION, .integer n))])]

/-- A Deny, then a Permit: the Permit counts. A Permit, then a 4: no response. -/
theorem permit_never_invented_overwritten :
    (∃ response, xacmlResponseUnmarshal (responseDeciding [0#32, 1#32]) = some response
      ∧ (resultObjects (responseDeciding [0#32, 1#32])).map xacmlResultUnmarshal
          = response.results.map some)
      ∧ xacmlResponseUnmarshal (responseDeciding [1#32, 4#32]) = none := by
  refine ⟨⟨_, rfl, ((permit_never_invented _).1 _ rfl).1⟩, (permit_never_invented _).2 ?_⟩
  refine ⟨_, List.mem_singleton.mpr rfl, .integer 4#32, by simp [decisionEntries, valuesUnder, mapKey], ?_⟩
  intro h
  obtain ⟨n, hn, -, hle⟩ := h
  cases hn
  exact absurd hle (by decide)

end ArgusPep
