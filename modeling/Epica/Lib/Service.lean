import Epica.Lib.Run

/-!
# Services and the layers around them

A service answers a request and goes on to its next state.  A layer wraps a service.

* `guard`   answers some requests itself, and leaves the state alone when it does;
* `meter`   has a state of its own, which decides for each request whether it is passed on.

* `guard_guard`                  two guards in a row are one;
* `run_guard`, `outputs_guard`   behind a guard a service sees the run of the requests that are let
                                 through, and no other;
* `run_meter_fst`                the meter sees every request, whatever the service does.
-/

set_option linter.unusedSectionVars false

namespace Lib

/-- what a request is answered, and the state it leaves -/
abbrev Service (S Q R : Type) := S → Q → R × S

namespace Service
section
variable {S Q R : Type}

/-- the state after a request -/
def next (service : Service S Q R) (s : S) (q : Q) : S := (service s q).2

/-- the request, with its answer -/
def answered (service : Service S Q R) (s : S) (q : Q) : List (Q × R) := [(q, (service s q).1)]

/-- `check q` is the answer to a request that is not let through -/
def guard (check : Q → Except R Unit) (service : Service S Q R) : Service S Q R :=
  fun s q =>
    match check q with
    | .ok () => service s q
    | .error r => (r, s)

/-- the request is let through -/
def passes (check : Q → Except R Unit) (q : Q) : Bool := (check q).isOk

variable {check : Q → Except R Unit} {service : Service S Q R}

theorem passes_iff {q : Q} : passes check q = true ↔ check q = .ok () := by
  unfold passes
  cases check q with
  | ok u => exact iff_of_true rfl rfl
  | error r => exact iff_of_false Bool.false_ne_true nofun

theorem guard_of_passes {q : Q} (h : passes check q = true) (s : S) :
    guard check service s q = service s q := by
  unfold guard
  rw [passes_iff.mp h]

theorem guard_of_not_passes (service : Service S Q R) {q : Q} (h : passes check q = false) (s : S) :
    ∃ r, check q = .error r ∧ guard check service s q = (r, s) := by
  unfold passes at h
  unfold guard
  cases hc : check q with
  | ok u =>
    rw [hc] at h
    cases h
  | error r => exact ⟨r, rfl, rfl⟩

/-- the check of the outer guard comes first -/
theorem guard_guard (outer check : Q → Except R Unit) (service : Service S Q R) :
    guard outer (guard check service) =
      guard (fun q => (outer q).bind fun _ => check q) service := by
  funext s q
  cases h : outer q <;> simp only [guard, h, Except.bind]

/-- **behind a guard a service runs on the requests that are let through** -/
theorem run_guard (s : S) (qs : List Q) :
    run (guard check service).next s qs = run service.next s (qs.filter (passes check)) := by
  induction qs generalizing s with
  | nil => rfl
  | cons q qs ih =>
    show run _ ((guard check service).next s q) qs = _
    rw [ih]
    cases h : passes check q with
    | true =>
      rw [List.filter_cons_of_pos h]
      unfold next
      rw [guard_of_passes h]
      rfl
    | false =>
      rw [List.filter_cons_of_neg (by rw [h]; exact Bool.false_ne_true)]
      obtain ⟨r, -, hr⟩ := guard_of_not_passes service h s
      unfold next
      rw [hr]

/-- **and answers them as it does without the others** -/
theorem outputs_guard (s : S) (qs : List Q) :
    (outputs (guard check service).next (guard check service).answered s qs).filter
        (fun e => passes check e.1) =
      outputs service.next service.answered s (qs.filter (passes check)) := by
  induction qs generalizing s with
  | nil => rfl
  | cons q qs ih =>
    show ((q, (guard check service s q).1) ::
      outputs _ _ ((guard check service).next s q) qs).filter _ = _
    rw [List.filter_cons, List.filter_cons, ih]
    unfold next
    cases h : passes check q with
    | true =>
      rw [guard_of_passes h]
      rfl
    | false =>
      obtain ⟨r, -, hr⟩ := guard_of_not_passes service h s
      rw [hr]
      rfl

end

/-! ## meters -/

section
variable {L S Q R : Type}

/-- `decides` is what the meter does with a request, and its next state; `refusal` the answer when
it refuses -/
def meter (decides : L → Q → Bool × L) (refusal : R) (service : Service S Q R) :
    Service (L × S) Q R :=
  fun s q =>
    match decides s.1 q with
    | (true, l) => ((service s.2 q).1, l, (service s.2 q).2)
    | (false, l) => (refusal, l, s.2)

variable {decides : L → Q → Bool × L} {refusal : R} {service : Service S Q R}

/-- the requests that a meter admits, one after the other -/
def admitted (decides : L → Q → Bool × L) : L → List Q → List Q
  | _, [] => []
  | l, q :: qs =>
    if (decides l q).1 then q :: admitted decides (decides l q).2 qs
    else admitted decides (decides l q).2 qs

theorem admitted_sublist (decides : L → Q → Bool × L) (l : L) (qs : List Q) :
    (admitted decides l qs).Sublist qs := by
  induction qs generalizing l with
  | nil => exact List.Sublist.refl []
  | cons q qs ih =>
    unfold admitted
    split
    · exact (ih _).cons_cons q
    · exact (ih _).cons q

theorem meter_next (s : L × S) (q : Q) : (meter decides refusal service).next s q =
    ((decides s.1 q).2, if (decides s.1 q).1 then service.next s.2 q else s.2) := by
  unfold next meter
  rcases decides s.1 q with ⟨_ | _, l⟩ <;> rfl

/-- **a meter counts every request it sees, and the service runs on those it admits** -/
theorem run_meter (s : L × S) (qs : List Q) :
    run (meter decides refusal service).next s qs =
      (run (fun l q => (decides l q).2) s.1 qs,
        run service.next s.2 (admitted decides s.1 qs)) := by
  induction qs generalizing s with
  | nil => rfl
  | cons q qs ih =>
    show run _ ((meter decides refusal service).next s q) qs = _
    rw [ih, meter_next]
    refine Prod.ext rfl ?_
    show run service.next (if (decides s.1 q).1 then service.next s.2 q else s.2) _ =
      run service.next s.2 (if (decides s.1 q).1 then q :: _ else _)
    split <;> rfl

end
end Service
end Lib
