import GrevirPeripherals.PwmDeclarations
import GrevirPeripherals.PwmVerdict

/-!
An application from its declarations to its plan: the front end builds the requests,
the allocator solves them, and the plan is measured against the declared options.
-/

namespace GrevirPeripherals.PwmApplication

open GrevirPeripherals.AllocationSearch
open GrevirPeripherals.PwmAccumulation
open GrevirPeripherals.PwmAllocation
open GrevirPeripherals.PwmAllocator
open GrevirPeripherals.PwmDeclarations
open GrevirPeripherals.PwmEligibility
open GrevirPeripherals.PwmFitting
open GrevirPeripherals.PwmFrontEnd
open GrevirPeripherals.PwmModel
open GrevirPeripherals.PwmOptions
open GrevirPeripherals.PwmRequirements
open GrevirPeripherals.PwmSolution
open GrevirPeripherals.PwmSoundness
open GrevirPeripherals.PwmUnits
open GrevirPeripherals.PwmVerdict
open GrevirPeripherals.StandardSort
open GrevirPeripherals.Strings

section Placements

variable (resident : Target) (instances : List Instance)

/-- A candidate has one endpoint for each use of the named instances, and with it
honours every option that is active for the use. -/
structure Serves (instanceName : StringView) (c : Candidate) : Prop where
  names : ∀ key, key ∈ c.liveEndpoints.map Endpoint.request ↔
    key ∈ keys instances ∧ key.instanceName = instanceName
  honours : ∀ i ∈ instances, i.name = instanceName → ∀ use ∈ i.uses, ∀ e ∈ c.liveEndpoints,
    e.request = keyOf i use → ∀ option ∈ activeOptions resident i use, Honours c e option
  duties : c.count = 1 ∨ c.independentDuties = true

/-- One candidate of the hardware for each instance with a use, none of them reserved
and every two independent. -/
structure Placement (p : Problem) (choice : StringView → Candidate) : Prop where
  mem : ∀ key ∈ keys instances, choice key.instanceName ∈ p.candidates
  serves : ∀ key ∈ keys instances,
    Serves resident instances key.instanceName (choice key.instanceName)
  unreserved : ∀ key ∈ keys instances, Unreserved p (choice key.instanceName)
  independent : ∀ a ∈ keys instances, ∀ b ∈ keys instances, a.instanceName ≠ b.instanceName →
    Independent p.resources (choice a.instanceName) (choice b.instanceName)

/-- The problem that the application poses on the hardware of `p`. -/
def posed (p : Problem) : Problem :=
  { p with requests := requests resident instances }

/-- The declarations have names that can be told apart and options that go together. -/
structure WellDeclared : Prop where
  names : ¬BadNames instances
  options : ∀ i ∈ instances, ∀ use ∈ i.uses, (request resident i use).config.error = .none

end Placements

section Requests

variable {resident : Target} {instances : List Instance}

theorem wellDeclared_of_valid {sorter : Sorter} {p : Problem}
    (h : ValidProblem sorter (posed resident instances p)) : WellDeclared resident instances := by
  have hnames : ¬BadNames instances :=
    (validIdentities_iff_not_badNames (keys_requests resident instances)).mp h.identities
  refine ⟨hnames, ?_⟩
  intro i hi use huse
  have hmem : request resident i use ∈ requests resident instances := by
    rw [requests_of_not_badNames resident hnames]
    exact List.mem_flatMap.mpr ⟨i, hi, List.mem_map_of_mem huse⟩
  exact (h.requests _ hmem).error

variable (resident instances) in
theorem forall_keys_iff (P : Key → Prop) :
    (∀ key ∈ keys instances, P key) ↔ ∀ r ∈ requests resident instances, P r.key := by
  rw [← keys_requests resident instances, List.forall_mem_map]

variable (resident instances) in
theorem mem_keysOf_iff (instanceName : StringView) (key : Key) :
    key ∈ (requestsOf (requests resident instances) instanceName).map Request.key ↔
      key ∈ keys instances ∧ key.instanceName = instanceName := by
  rw [← keys_requests resident instances]
  simp only [List.mem_map, mem_requestsOf]
  constructor
  · rintro ⟨r, ⟨hr, hinstance⟩, rfl⟩
    exact ⟨⟨r, hr, rfl⟩, hinstance⟩
  · rintro ⟨⟨r, hr, rfl⟩, hinstance⟩
    exact ⟨r, ⟨hr, hinstance⟩, rfl⟩

variable (h : WellDeclared resident instances)

include h

theorem mem_requests_iff (r : Request) :
    r ∈ requests resident instances ↔
      ∃ i ∈ instances, ∃ use ∈ i.uses, request resident i use = r := by
  rw [requests_of_not_badNames resident h.names]
  simp only [List.mem_flatMap, List.mem_map]

/-- Serving an instance is fitting the requests that its declarations become. -/
theorem fitting_iff_serves (instanceName : StringView) (c : Candidate) :
    Fitting (requests resident instances) instanceName c ↔
      Serves resident instances instanceName c := by
  have hnames := mem_keysOf_iff resident instances instanceName
  constructor
  · intro hfitting
    refine ⟨fun key => (hfitting.names key).trans (hnames key), ?_, hfitting.duties⟩
    rintro i hi rfl use huse e he hkey
    have hr : request resident i use ∈ requestsOf (requests resident instances) i.name :=
      (mem_requestsOf _ _ _).mpr ⟨(mem_requests_iff h _).mpr ⟨i, hi, use, huse, rfl⟩, rfl⟩
    rw [← satisfies_request_iff resident i use (h.options i hi use huse), satisfies_iff_suits]
    exact ⟨hfitting.suits _ hr, hfitting.endpoints e he _ hr hkey⟩
  · intro hserves
    have hsatisfies : ∀ r ∈ requestsOf (requests resident instances) instanceName,
        ∀ e ∈ c.liveEndpoints, e.request = r.key → Satisfies c e r.config := by
      intro r hr e he hkey
      obtain ⟨hr, hinstance⟩ := (mem_requestsOf _ _ _).mp hr
      obtain ⟨i, hi, use, huse, rfl⟩ := (mem_requests_iff h r).mp hr
      rw [satisfies_request_iff resident i use (h.options i hi use huse)]
      exact hserves.honours i hi hinstance use huse e he hkey
    constructor
    case names => exact fun key => (hserves.names key).trans (hnames key).symm
    case endpoints =>
      intro e he r hr hkey
      exact ((satisfies_iff_suits c e r).mp (hsatisfies r hr e he hkey)).2
    case suits =>
      intro r hr
      have hkey : r.key ∈ c.liveEndpoints.map Endpoint.request :=
        (hserves.names _).mpr ((hnames _).mp (List.mem_map_of_mem hr))
      obtain ⟨e, he, hkey⟩ := List.mem_map.mp hkey
      exact ((satisfies_iff_suits c e r).mp (hsatisfies r hr e he hkey)).1
    case duties => exact hserves.duties

/-- The allocations of the posed problem are the placements of the application. -/
theorem allocation_iff_placement (p : Problem) (choice : StringView → Candidate) :
    Allocation (posed resident instances p) choice ↔
      Placement resident instances p choice := by
  have hkeys {P : Key → Prop} := forall_keys_iff resident instances P
  constructor
  · intro hallocation
    constructor
    case mem => exact hkeys.mpr hallocation.mem
    case serves =>
      exact hkeys.mpr fun r hr => (fitting_iff_serves h _ _).mp (hallocation.fitting r hr)
    case unreserved => exact hkeys.mpr hallocation.unreserved
    case independent =>
      exact hkeys.mpr fun a ha => hkeys.mpr fun b hb => hallocation.independent a ha b hb
  · intro hplacement
    constructor
    case mem => exact hkeys.mp hplacement.mem
    case fitting =>
      intro r hr
      exact (fitting_iff_serves h _ _).mpr (hkeys.mp hplacement.serves r hr)
    case unreserved => exact hkeys.mp hplacement.unreserved
    case independent =>
      intro a ha b hb
      exact hkeys.mp (hkeys.mp hplacement.independent a ha) b hb

end Requests

section Solve

variable (sorter : Sorter) (search : Search) (resident : Target) (instances : List Instance)
  (p : Problem) (budget : UInt32)

/-- What a plan promises to those who wrote the declarations. -/
structure Realizes (plan : Plan) : Prop where
  requests : plan.requests.Perm (keys instances)
  ascending : plan.requests.Pairwise (· < ·)
  meaningful : ∀ i ∈ instances, ∀ use ∈ i.uses, ∀ option ∈ activeOptions resident i use,
    Meaningful resident option
  placement : ∃ choice, Placement resident instances p choice ∧
    plan.candidates = plan.requests.map fun key => (choice key.instanceName).key

/-- A plan without an error puts every use on an endpoint that honours all of its options. -/
theorem solve_realizes_declarations
    (hok : (solve sorter search (posed resident instances p) budget).ok = true) :
    Realizes resident instances p
      (solve sorter search (posed resident instances p) budget) := by
  obtain ⟨hvalid, visited, choice, hallocation, hsolve⟩ :=
    exists_allocation_of_ok sorter search hok
  have hdeclared := wellDeclared_of_valid hvalid
  rw [hsolve]
  constructor
  case requests =>
    have hperm := sortedKeys_perm sorter (posed resident instances p)
    rwa [posed, keys_requests] at hperm
  case ascending => exact sortedKeys_strict hvalid
  case meaningful =>
    intro i hi use huse option hoption
    exact meaningful_of_error resident i use (hdeclared.options i hi use huse) hoption
  case placement =>
    exact ⟨choice, (allocation_iff_placement hdeclared p choice).mp hallocation, rfl⟩

/-- The candidates that could serve the named instance on their own. -/
def serving (instanceName : StringView) : Set Candidate :=
  {c | c ∈ p.candidates ∧ Serves resident instances instanceName c}

/-- A refusal means that there is no placement, and names what stands in its way. -/
structure JustifiedRefusal (diagnostic : Diagnostic) : Prop where
  noPlacement : verdict diagnostic.status = .refused →
    ¬∃ choice, Placement resident instances p choice
  noCandidate : diagnostic.status = .noCandidate →
    diagnostic.request ∈ keys instances ∧
      ∀ c, c ∉ serving resident instances p diagnostic.request.instanceName
  reserved : diagnostic.status = .reserved →
    diagnostic.request ∈ keys instances ∧
      (∀ c ∈ serving resident instances p diagnostic.request.instanceName, ¬Unreserved p c) ∧
      IsLeast {r | r ∈ p.reservations ∧
        ∃ c ∈ serving resident instances p diagnostic.request.instanceName,
          Blocks p.resources c r} diagnostic.detail
  conflict : diagnostic.status = .conflict → ∀ key ∈ keys instances,
    ∃ c ∈ serving resident instances p key.instanceName, Unreserved p c

variable {resident instances p}

/-- The report on an instance, in terms of its declarations. -/
theorem justified_of_instanceReport (h : WellDeclared resident instances) {key : Key}
    {diagnostic : Diagnostic} (hkey : key ∈ keys instances)
    (hnone : NoFreeCandidate (posed resident instances p) key.instanceName)
    (hreport : InstanceReport (posed resident instances p) key diagnostic) :
    JustifiedRefusal resident instances p diagnostic := by
  have hserving : ∀ c, c ∈ serving resident instances p key.instanceName ↔
      c ∈ p.candidates ∧ Fitting (requests resident instances) key.instanceName c :=
    fun c => and_congr_right fun _ => (fitting_iff_serves h _ c).symm
  have hnoPlacement : ¬∃ choice, Placement resident instances p choice := by
    rintro ⟨choice, hplacement⟩
    have hfitting := (fitting_iff_serves h _ _).mpr (hplacement.serves key hkey)
    exact hnone _ (hplacement.mem key hkey) hfitting (hplacement.unreserved key hkey)
  cases hreport with
  | noCandidate hall =>
      refine ⟨fun _ => hnoPlacement, fun _ => ⟨hkey, ?_⟩, by simp, by simp⟩
      intro c hc
      obtain ⟨hc, hfitting⟩ := (hserving c).mp hc
      exact hall c hc hfitting
  | reserved detail hleast =>
      refine ⟨fun _ => hnoPlacement, by simp, fun _ => ⟨hkey, ?_, ?_⟩, by simp⟩
      · intro c hc
        obtain ⟨hc, hfitting⟩ := (hserving c).mp hc
        exact hnone c hc hfitting
      · convert hleast using 1
        ext r
        simp only [hserving, blockersOf, Set.mem_ofPred_eq, and_assoc]
        rfl

/-- Whatever the allocator refuses cannot be placed, and it names a reason for that. -/
theorem solve_refusal_justified :
    JustifiedRefusal resident instances p
      (solve sorter search (posed resident instances p) budget).diagnostic := by
  by_cases hvalid : ValidProblem sorter (posed resident instances p)
  · have hdeclared := wellDeclared_of_valid hvalid
    have hkeys {P : Key → Prop} := forall_keys_iff resident instances P
    by_cases hblocked : ∃ r ∈ (posed resident instances p).requests,
        NoFreeCandidate (posed resident instances p) r.key.instanceName
    · obtain ⟨key, diagnostic, hleast, hreport, hsolve⟩ :=
        solve_of_blocked sorter search budget hvalid hblocked
      obtain ⟨hkey, hnone⟩ := hleast.1
      rw [posed, keys_requests] at hkey
      rw [hsolve]
      exact justified_of_instanceReport hdeclared hkey hnone hreport
    · have hfree : ∀ key ∈ keys instances,
          ¬NoFreeCandidate (posed resident instances p) key.instanceName :=
        hkeys.mpr fun r hr hnone => hblocked ⟨r, hr, hnone⟩
      have hconflict : ∀ key ∈ keys instances,
          ∃ c ∈ serving resident instances p key.instanceName, Unreserved p c := by
        intro key hkey
        have hfree := hfree key hkey
        simp only [NoFreeCandidate, not_forall, not_not] at hfree
        obtain ⟨c, hc, hfitting, hunreserved⟩ := hfree
        exact ⟨c, ⟨hc, (fitting_iff_serves hdeclared _ c).mp hfitting⟩, hunreserved⟩
      rcases solve_of_free sorter search budget hvalid (hkeys.mp hfree) with
        ⟨visited, choice, -, hsolve⟩ | ⟨visited, hnone, hsolve⟩ | ⟨visited, hsolve⟩
      · rw [hsolve]
        exact ⟨by simp [verdict], by simp, by simp, by simp⟩
      · rw [hsolve]
        refine ⟨?_, by simp [fail], by simp [fail], fun _ => hconflict⟩
        rintro - ⟨choice, hplacement⟩
        exact hnone ⟨choice, (allocation_iff_placement hdeclared p choice).mpr hplacement⟩
      · rw [hsolve]
        exact ⟨by simp [verdict, fail], by simp [fail], by simp [fail], by simp [fail]⟩
  · have hverdict := undecided_of_invalid sorter search _ budget hvalid
    constructor <;> intro hstatus
    · exact absurd (hverdict.symm.trans hstatus) (by decide)
    all_goals rw [hstatus] at hverdict; exact absurd hverdict (by decide)

end Solve

section Board

/-- The declarations behind the requests of the board; the section for another target is inert. -/
def boardInstances : List Instance :=
  [{ name := text "led"
     items := [.option (.plain (.frequency ⟨1000, 1⟩ (.withinPpm 500))),
       .use ⟨text "dim", [.plain (.pin 33), .plain (.dutyStepAtMost ⟨1, 200⟩),
         .forTarget .esp32 [.plain (.pin 4)]]⟩] },
    { name := text "fan"
      items := [.option (.plain (.frequency ⟨2000, 2⟩ .exact)),
        .option (.plain (.dutyStepAtMost ⟨1, 256⟩)),
        .use ⟨text "left", [.plain (.pin 31)]⟩,
        .use ⟨text "right", [.plain (.pin 32), .plain (.counterBitsAtLeast 8)]⟩] }]

theorem board_realizes_declarations :
    Realizes .atmega328p boardInstances boardProblem
      (solve insertionSorter backtracking (posed .atmega328p boardInstances boardProblem) 100) :=
  solve_realizes_declarations insertionSorter backtracking .atmega328p boardInstances boardProblem
    100 (by decide +kernel)

end Board

end GrevirPeripherals.PwmApplication
