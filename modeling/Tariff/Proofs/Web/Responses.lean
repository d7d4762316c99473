/-
# Requests and what comes of them

Each of these requests has one route, so the response to it is what its handler makes of the form of its body. An
answer that is successful holds the JSON it was given, and every number in it is finite.

| request | handler |
| --- | --- |
| `POST /quote` | `quote` |
| `POST /api/rules/test` | `tryRule` |
| `POST /api/rules/reload` | `reload` |
-/

import Tariff.Web.Routes

namespace Tariff
namespace Web

/-! ### Requests -/

/-- A request to do something, perhaps with a JSON body. -/
def post (path : String) (body : Option Json) : Request := ⟨"POST", path, [], body⟩

section

variable {o : Office} {b : Book}

/-- The response to such a request is the answer on its route. -/
theorem respond_post (hbook : o.book = some b) {path : String} {route : Route}
    (hroute : (Route.ofPath path).find? (fun route => route.method = "POST") = some route) (body : Option Json) :
    respond o (post path body) = answer o b (post path body) route := by
  have hfind : (Route.ofPath path).find? (fun route => route.method = (post path body).method) = some route := hroute
  have hpath : Route.ofPath (post path body).path = Route.ofPath path := rfl
  cases hroutes : Route.ofPath path with
  | nil =>
    rw [hroutes] at hroute
    cases hroute
  | cons first others =>
    rw [hroutes] at hfind hpath
    simp only [respond, respondInFull, hpath, hfind, hbook]
    rfl

/-- A request that can be read is answered by trying its rule on the book that is there. -/
theorem respond_trial (hbook : o.book = some b) {body : Option Json} {f : TrialForm}
    (hform : trialForm body = some f) : (respond o (post "/api/rules/test" body)).2 = tryRule o.terms b f := by
  have hroute : (Route.ofPath "/api/rules/test").find? (fun route => route.method = "POST") = some .tryRule := by
    decide
  rw [respond_post hbook hroute]
  simp only [answer, post, hform, withForm]

/-- A request that can be read is answered by a quote on the book that is there. -/
theorem respond_quote (hbook : o.book = some b) {body : Option Json} {f : QuoteForm}
    (hform : quoteForm body = some f) : (respond o (post "/quote" body)).2 = quote o.terms b f := by
  have hroute : (Route.ofPath "/quote").find? (fun route => route.method = "POST") = some .quote := by decide
  rw [respond_post hbook hroute]
  simp only [answer, post, hform, withForm]

/-- A request to reload is answered by reloading. -/
theorem respond_reload (hbook : o.book = some b) : respond o (post "/api/rules/reload" none) = reload o := by
  have hroute : (Route.ofPath "/api/rules/reload").find? (fun route => route.method = "POST") = some .reload := by
    decide
  exact respond_post hbook hroute none

end

/-! ### What answers of either form hold -/

namespace Response

/-- The JSON of an answer that is successful. -/
def success? : Response → Option Json
  | ⟨200, .json v⟩ => some v
  | _ => none

/-- A success has the content that was meant, and that could be written. -/
theorem success?_ok_eq_some {v body : Json} (h : (ok v).success? = some body) : isWritable v ∧ body = v := by
  unfold ok at h
  split at h
  · rename_i hwritable
    exact ⟨hwritable, (Option.some.inj h).symm⟩
  · cases h

mutual

/-- What can be written stays as it is. -/
theorem writable_of_isWritable (v : Json) (h : isWritable v) : writable v = v := by
  match v with
  | .null | .bool _ | .int _ | .text _ => simp [writable]
  | .real x =>
    rw [isWritable] at h
    rw [writable, if_pos h]
  | .list items => rw [writable, writableItems_of_areWritable items h]
  | .object fields => rw [writable, writableFields_of_fieldsWritable fields h]

/-- Elements that can be written are written as they are. -/
theorem writableItems_of_areWritable (items : List Json) (h : areWritable items) : writableItems items = items := by
  match items with
  | [] => rfl
  | x :: rest =>
    rw [areWritable, Bool.and_eq_true] at h
    rw [writableItems, writable_of_isWritable x h.1, writableItems_of_areWritable rest h.2]

/-- Fields that can be written are written as they are. -/
theorem writableFields_of_fieldsWritable (fields : List (String × Json)) (h : fieldsWritable fields) :
    writableFields fields = fields := by
  match fields with
  | [] => rfl
  | (_, x) :: rest =>
    rw [fieldsWritable, Bool.and_eq_true] at h
    rw [writableFields, writable_of_isWritable x h.1, writableFields_of_fieldsWritable rest h.2]

end

theorem isWritable_of_mem {items : List Json} (h : areWritable items) {v : Json} (hv : v ∈ items) : isWritable v := by
  induction items with
  | nil => cases hv
  | cons x rest ih =>
    rw [areWritable, Bool.and_eq_true] at h
    rcases List.mem_cons.1 hv with rfl | hv
    · exact h.1
    · exact ih h.2 hv

theorem isWritable_of_get? {v : Json} (h : isWritable v) {key : String} {x : Json} (hx : v.get? key = some x) :
    isWritable x := by
  cases v with
  | object fields =>
    rw [isWritable] at h
    rw [Json.get?] at hx
    induction fields with
    | nil => cases hx
    | cons field rest ih =>
      obtain ⟨k, y⟩ := field
      rw [fieldsWritable, Bool.and_eq_true] at h
      rw [lookup?] at hx
      split at hx
      · obtain rfl := Option.some.inj hx
        exact h.1
      · exact ih h.2 hx
  | _ => cases hx

end Response

end Web
end Tariff
