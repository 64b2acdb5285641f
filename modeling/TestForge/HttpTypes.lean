import Mathlib.Data.List.Forall2
import TestForge.Strings

/-! Header collections, requests and responses. Elapsed times are left out. -/
namespace TestForge

open Strings

/-- Order-preserving, with names compared ignoring case. -/
structure HttpHeaders where
  items : List (Bytes × Bytes) := []
  deriving DecidableEq, Repr

namespace HttpHeaders

def add (headers : HttpHeaders) (name value : Bytes) : HttpHeaders :=
  ⟨headers.items ++ [(name,value)]⟩

def remove (headers : HttpHeaders) (name : Bytes) : HttpHeaders :=
  ⟨headers.items.filter fun item => !equalsIgnoreCase item.1 name⟩

def set (headers : HttpHeaders) (name value : Bytes) : HttpHeaders :=
  (headers.remove name).add name value

def get (headers : HttpHeaders) (name : Bytes) : Option Bytes :=
  (headers.items.find? fun item => equalsIgnoreCase item.1 name).map (·.2)

def getOr (headers : HttpHeaders) (name fallback : Bytes) : Bytes := (headers.get name).getD fallback

def contains (headers : HttpHeaders) (name : Bytes) : Bool := (headers.get name).isSome

/-- The `set` of every item of `more`, in order. -/
def merge (headers more : HttpHeaders) : HttpHeaders :=
  more.items.foldl (fun headers item => headers.set item.1 item.2) headers

@[simp] theorem items_add (headers : HttpHeaders) (name value : Bytes) :
    (headers.add name value).items = headers.items ++ [(name,value)] := rfl

@[simp] theorem items_remove (headers : HttpHeaders) (name : Bytes) :
    (headers.remove name).items = headers.items.filter fun item => !equalsIgnoreCase item.1 name := rfl

theorem contains_iff (headers : HttpHeaders) (name : Bytes) :
    headers.contains name = true ↔ ∃ item ∈ headers.items, toLower item.1 = toLower name := by
  simp [contains,get,equalsIgnoreCase_iff]

/-- Header names are equal when they agree ignoring case. -/
theorem contains_set (headers : HttpHeaders) (name value other : Bytes) :
    (headers.set name value).contains other = true ↔
      headers.contains other = true ∨ toLower name = toLower other := by
  simp only [contains_iff,set,items_add,items_remove,List.mem_append,List.mem_singleton,
    List.mem_filter,Bool.not_eq_true',Bool.eq_false_iff,ne_eq,equalsIgnoreCase_iff]
  constructor
  · rintro ⟨item,⟨member,_⟩ | rfl,same⟩
    · exact .inl ⟨item,member,same⟩
    · exact .inr same
  · rintro (⟨item,member,same⟩ | same)
    · by_cases replaced : toLower item.1 = toLower name
      · exact ⟨(name,value),.inr rfl,replaced ▸ same⟩
      · exact ⟨item,.inl ⟨member,replaced⟩,same⟩
    · exact ⟨(name,value),.inr rfl,same⟩

theorem get_set_other (headers : HttpHeaders) (name value other : Bytes) (different : toLower name ≠ toLower other) :
    (headers.set name value).get other = headers.get other := by
  have apart : equalsIgnoreCase name other = false := by
    rwa [Bool.eq_false_iff,ne_eq,equalsIgnoreCase_iff]
  have kept (item : Bytes × Bytes) : decide ((!equalsIgnoreCase item.1 name) = true ∧
      equalsIgnoreCase item.1 other = true) = equalsIgnoreCase item.1 other := by
    cases found : equalsIgnoreCase item.1 other with
    | false => simp
    | true =>
      rw [equalsIgnoreCase_iff] at found
      have missed : equalsIgnoreCase item.1 name = false := by
        rw [Bool.eq_false_iff,ne_eq,equalsIgnoreCase_iff,found]
        exact fun same => different same.symm
      simp [missed]
  simp only [get,set,items_add,items_remove,List.find?_append,List.find?_filter,kept,List.find?_cons,apart,
    List.find?_nil,Option.or_none]

theorem contains_remove (headers : HttpHeaders) (name other : Bytes) :
    (headers.remove name).contains other = true ↔
      headers.contains other = true ∧ toLower other ≠ toLower name := by
  simp only [contains_iff,items_remove,List.mem_filter,Bool.not_eq_true',Bool.eq_false_iff,ne_eq,
    equalsIgnoreCase_iff]
  constructor
  · rintro ⟨item,⟨member,kept⟩,same⟩
    exact ⟨⟨item,member,same⟩,same ▸ kept⟩
  · rintro ⟨⟨item,member,same⟩,kept⟩
    exact ⟨item,⟨member,same ▸ kept⟩,same⟩

theorem contains_merge (headers more : HttpHeaders) (name : Bytes) :
    (headers.merge more).contains name = true ↔
      headers.contains name = true ∨ more.contains name = true := by
  obtain ⟨items⟩ := more
  induction items generalizing headers with
  | nil => simp [merge,contains_iff]
  | cons item rest ih =>
    have step := ih (headers.set item.1 item.2)
    simp only [merge] at step ⊢
    rw [List.foldl_cons,step,contains_set]
    simp [contains_iff,or_assoc]

/-- No two items have the same name. -/
def Distinct (headers : HttpHeaders) : Prop :=
  headers.items.Pairwise fun a b => toLower a.1 ≠ toLower b.1

theorem set_distinct (headers : HttpHeaders) (name value : Bytes) (distinct : headers.Distinct) :
    (headers.set name value).Distinct := by
  simp only [Distinct,set,items_add,items_remove]
  refine List.pairwise_append.mpr ⟨distinct.filter _,List.pairwise_singleton _ _,?_⟩
  intro item member other single
  obtain rfl : other = (name,value) := by simpa using single
  simp only [List.mem_filter,Bool.not_eq_true',Bool.eq_false_iff,ne_eq,equalsIgnoreCase_iff] at member
  exact member.2

theorem merge_distinct (headers more : HttpHeaders) (distinct : headers.Distinct) :
    (headers.merge more).Distinct := by
  obtain ⟨items⟩ := more
  induction items generalizing headers with
  | nil => exact distinct
  | cons item rest ih => exact ih _ (set_distinct headers item.1 item.2 distinct)

theorem set_forall (headers : HttpHeaders) (name value : Bytes) (P : Bytes × Bytes → Prop)
    (all : ∀ item ∈ headers.items, P item) (new : P (name,value)) :
    ∀ item ∈ (headers.set name value).items, P item := by
  intro item member
  simp only [set,items_add,items_remove,List.mem_append,List.mem_filter,List.mem_singleton] at member
  rcases member with ⟨member,_⟩ | rfl
  · exact all item member
  · exact new

theorem merge_forall (headers more : HttpHeaders) (P : Bytes × Bytes → Prop)
    (all : ∀ item ∈ headers.items, P item) (new : ∀ item ∈ more.items, P item) :
    ∀ item ∈ (headers.merge more).items, P item := by
  obtain ⟨items⟩ := more
  induction items generalizing headers with
  | nil => exact all
  | cons item rest ih =>
    exact ih _ (set_forall headers item.1 item.2 P all (new item (by simp)))
      fun other member => new other (by simp only at member ⊢; simp [member])

/-- Item by item, two collections stand in a relation that keeps names. -/
def Related (R : Bytes × Bytes → Bytes × Bytes → Prop) (a b : HttpHeaders) : Prop :=
  List.Forall₂ R a.items b.items

section

variable {R : Bytes × Bytes → Bytes × Bytes → Prop} (names : ∀ x y, R x y → x.1 = y.1)
  {a b : HttpHeaders}
include names

theorem Related.remove (related : a.Related R b) (name : Bytes) :
    (a.remove name).Related R (b.remove name) := by
  obtain ⟨left⟩ := a
  obtain ⟨right⟩ := b
  simp only [Related,items_remove] at related ⊢
  induction related with
  | nil => exact .nil
  | @cons x y _ _ head _ ih =>
    rw [List.filter_cons,List.filter_cons,names x y head]
    split
    · exact .cons head ih
    · exact ih

theorem Related.set (related : a.Related R b) (name value other : Bytes)
    (item : R (name,value) (name,other)) : (a.set name value).Related R (b.set name other) :=
  List.rel_append (Related.remove names related name) (.cons item .nil)

theorem Related.merge (related : a.Related R b) (more others : HttpHeaders)
    (also : more.Related R others) : (a.merge more).Related R (b.merge others) := by
  obtain ⟨left⟩ := more
  obtain ⟨right⟩ := others
  simp only [Related] at also
  induction also generalizing a b with
  | nil => exact related
  | @cons x y _ _ head _ ih =>
    obtain ⟨name,value⟩ := x
    obtain ⟨_,other⟩ := y
    obtain rfl : name = _ := names _ _ head
    exact ih (Related.set names related name value other head)

theorem Related.contains (related : a.Related R b) (name : Bytes) :
    a.contains name = b.contains name := by
  have forward : a.items.map (·.1) = b.items.map (·.1) := by
    obtain ⟨left⟩ := a
    obtain ⟨right⟩ := b
    simp only [Related] at related ⊢
    induction related with
    | nil => rfl
    | cons head _ ih => simp [names _ _ head,ih]
  have among (headers : HttpHeaders) : headers.contains name = true ↔
      ∃ held ∈ headers.items.map (·.1), toLower held = toLower name := by
    simp [contains_iff]
  rw [Bool.eq_iff_iff,among,among,forward]

end

end HttpHeaders

structure HttpRequest where
  method : Bytes := ascii "GET"
  url : Bytes := []
  headers : HttpHeaders := {}
  body : Bytes := []
  deriving DecidableEq, Repr

structure HttpResponse where
  statusCode : Int := 0
  statusText : Bytes := []
  headers : HttpHeaders := {}
  body : Bytes := []
  transportError : Bool := false
  errorMessage : Bytes := []
  requestMethod : Bytes := []
  requestUrl : Bytes := []
  deriving DecidableEq, Repr

def reasonPhrase (statusCode : Int) : Bytes :=
  match statusCode with
  | 200 => ascii "OK"
  | 201 => ascii "Created"
  | 202 => ascii "Accepted"
  | 204 => ascii "No Content"
  | 301 => ascii "Moved Permanently"
  | 302 => ascii "Found"
  | 304 => ascii "Not Modified"
  | 400 => ascii "Bad Request"
  | 401 => ascii "Unauthorized"
  | 403 => ascii "Forbidden"
  | 404 => ascii "Not Found"
  | 405 => ascii "Method Not Allowed"
  | 408 => ascii "Request Timeout"
  | 409 => ascii "Conflict"
  | 413 => ascii "Payload Too Large"
  | 415 => ascii "Unsupported Media Type"
  | 422 => ascii "Unprocessable Entity"
  | 429 => ascii "Too Many Requests"
  | 500 => ascii "Internal Server Error"
  | 501 => ascii "Not Implemented"
  | 502 => ascii "Bad Gateway"
  | 503 => ascii "Service Unavailable"
  | 504 => ascii "Gateway Timeout"
  | other =>
    if 200 ≤ other ∧ other < 300 then ascii "Success"
    else if 400 ≤ other ∧ other < 500 then ascii "Client Error"
    else if 500 ≤ other then ascii "Server Error"
    else ascii "Unknown"

end TestForge
