import ServiceSystem.WebServer.Backend

namespace ServiceSystem.WebServer

open Foundations Handler

/-- What follows the last dot of a name. -/
def extension : Str → Option Str
  | [] => none
  | c :: rest =>
    match extension rest with
    | some ext => some ext
    | none => if c = '.' then some rest else none

theorem extension_eq_none {filename : Str} : extension filename = none ↔ '.' ∉ filename := by
  induction filename with
  | nil => simp [extension]
  | cons c rest ih =>
    rw [extension, List.mem_cons, not_or, ← ih]
    cases extension rest with
    | some ext => simp
    | none => simp [eq_comm]

theorem extension_eq_some {filename ext : Str} :
    extension filename = some ext ↔ ∃ stem, filename = stem ++ '.' :: ext ∧ '.' ∉ ext := by
  constructor
  · intro h
    induction filename with
    | nil => cases h
    | cons c rest ih =>
      cases hrest : extension rest with
      | some ext' =>
        rw [extension, hrest] at h
        obtain ⟨stem, rfl, hdot⟩ := ih (hrest.trans h)
        exact ⟨c :: stem, rfl, hdot⟩
      | none =>
        simp only [extension, hrest] at h
        split_ifs at h with hc
        obtain rfl := Option.some.inj h
        exact ⟨[], by rw [hc]; rfl, extension_eq_none.mp hrest⟩
  · rintro ⟨stem, rfl, hdot⟩
    induction stem with
    | nil => simp [extension, extension_eq_none.mpr hdot]
    | cons c stem ih => rw [List.cons_append, extension, ih]

theorem extension_infix {filename ext : Str} (h : extension filename = some ext) :
    '.' :: ext <:+: filename := by
  obtain ⟨stem, rfl, -⟩ := extension_eq_some.mp h
  exact (List.suffix_append _ _).isInfix

/-- The content type that belongs to an extension. -/
def typeOfExtension (ext : Option Str) : Str :=
  if ext = some "css".toList then "text/css".toList
  else if ext = some "js".toList then "application/javascript".toList
  else if ext = some "png".toList then "image/png".toList
  else if ext = some "jpg".toList ∨ ext = some "jpeg".toList then "image/jpeg".toList
  else "text/html".toList

/-- The texts that the handler looks for before it comes to an extension. -/
def testedBefore (ext : Option Str) : List Str :=
  if ext = some "css".toList then []
  else if ext = some "js".toList then [".css".toList]
  else if ext = some "png".toList then [".css".toList, ".js".toList]
  else if ext = some "jpg".toList ∨ ext = some "jpeg".toList then
    [".css".toList, ".js".toList, ".png".toList]
  else [".css".toList, ".js".toList, ".png".toList, ".jpg".toList, ".jpeg".toList]

theorem contentType_eq_iff (filename : Str) :
    contentType filename = typeOfExtension (extension filename) ↔
      ∀ text ∈ testedBefore (extension filename), ¬ text <:+: filename := by
  by_cases hcss : extension filename = some "css".toList
  · have hown : ".css".toList <:+: filename := extension_infix hcss
    rw [contentType, if_pos hown, typeOfExtension, if_pos hcss, testedBefore, if_pos hcss]
    simp
  by_cases hjs : extension filename = some "js".toList
  · have hown : ".js".toList <:+: filename := extension_infix hjs
    rw [contentType, if_pos hown, typeOfExtension, if_neg hcss, if_pos hjs, testedBefore,
      if_neg hcss, if_pos hjs]
    split_ifs with h₁ <;> simpa using h₁
  by_cases hpng : extension filename = some "png".toList
  · have hown : ".png".toList <:+: filename := extension_infix hpng
    rw [contentType, if_pos hown, typeOfExtension, if_neg hcss, if_neg hjs, if_pos hpng,
      testedBefore, if_neg hcss, if_neg hjs, if_pos hpng]
    split_ifs with h₁ h₂ <;> simp_all
  by_cases hjpg : extension filename = some "jpg".toList ∨ extension filename = some "jpeg".toList
  · have hown : ".jpg".toList <:+: filename ∨ ".jpeg".toList <:+: filename :=
      hjpg.imp extension_infix extension_infix
    rw [contentType, if_pos hown, typeOfExtension, if_neg hcss, if_neg hjs, if_neg hpng,
      if_pos hjpg, testedBefore, if_neg hcss, if_neg hjs, if_neg hpng, if_pos hjpg]
    split_ifs with h₁ h₂ h₃ <;> simp_all
  · rw [contentType, typeOfExtension, if_neg hcss, if_neg hjs, if_neg hpng, if_neg hjpg,
      testedBefore, if_neg hcss, if_neg hjs, if_neg hpng, if_neg hjpg]
    split_ifs with h₁ h₂ h₃ h₄
    · exact iff_of_false (by decide) (fun h ↦ h _ (by simp) h₁)
    · exact iff_of_false (by decide) (fun h ↦ h _ (by simp) h₂)
    · exact iff_of_false (by decide) (fun h ↦ h _ (by simp) h₃)
    · exact iff_of_false (by decide) (fun h ↦ h₄.elim (h _ (by simp)) (h _ (by simp)))
    · obtain ⟨hj, hj'⟩ := not_or.mp h₄
      refine iff_of_true rfl (fun text htext ↦ ?_)
      simp only [List.mem_cons, List.not_mem_nil, or_false] at htext
      rcases htext with rfl | rfl | rfl | rfl | rfl <;> assumption

def Response.header (res : Response) (key : Str) : Option Str :=
  (res.headers.find? (·.1 = key)).map Prod.snd

variable [Platform] {δ : Type}

/-- The route answers with the content type that belongs to the name's extension. -/
def FollowsExtension (filename : Str) (w : World δ) : Prop :=
  ∃ res, (staticHandler filename w).1 = .ok res ∧
    res.header "Content-Type".toList = some (typeOfExtension (extension filename))

/-- The header is right just if the name holds none of the texts that are looked for
before its own extension. -/
theorem followsExtension_iff (filename content : Str) (hserved : openFile filename = some content)
    (w : World δ) : FollowsExtension filename w ↔
      ∀ text ∈ testedBefore (extension filename), ¬ text <:+: filename := by
  rw [← contentType_eq_iff, FollowsExtension, staticHandler, hserved]
  constructor
  · rintro ⟨res, hres, hheader⟩
    cases hres
    exact Option.some.inj hheader
  · intro h
    exact ⟨_, rfl, congrArg some h⟩

@[reducible] def packagePlatform : Platform :=
  .nlohmann .sorted (fun path ↦
    if path = "www/package.json".toList then some "\x7b\x7d".toList else none)

omit [Platform] in
theorem packageJson_not_followsExtension : ¬ ∀ (_ : Platform) (δ : Type) (filename content : Str),
    '/' ∉ filename → openFile filename = some content → ∀ w : World δ,
      FollowsExtension filename w := by
  intro h
  have hfollows := h packagePlatform Unit "package.json".toList "\x7b\x7d".toList (by decide) rfl
    ⟨(), .empty, []⟩
  let _ := packagePlatform
  obtain ⟨res, hres, hheader⟩ := hfollows
  cases hres
  exact absurd hheader (by decide)

omit [Platform] in
theorem packageJson_served : letI := packagePlatform
    ¬ FollowsExtension "package.json".toList (⟨(), .empty, []⟩ : World Unit) := by
  let _ := packagePlatform
  have hiff := followsExtension_iff "package.json".toList "\x7b\x7d".toList rfl
    (⟨(), .empty, []⟩ : World Unit)
  rw [hiff]
  decide

end ServiceSystem.WebServer
