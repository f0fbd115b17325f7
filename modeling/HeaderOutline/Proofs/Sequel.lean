import HeaderOutline.Proofs.Sequel.Construct
import HeaderOutline.Proofs.Sequel.Outline
import HeaderOutline.Text.Unicode

/-! # A header behind another one

A clean header that ends with a semicolon and a line feed, and that leaves nothing open, may have
any other header behind it: the outline of both is that of the first one followed by that of the
second one (`parse_append`).  For no construct of the first one looks behind its semicolon
(`Building.run_sequel`), and what the second one is read from and added to differs from an empty
outline in the places and the numbers alone (`Transfer.run_building`).
-/
namespace HeaderOutline

namespace Building

variable {policy : Recovery.Policy} {merge : Bool} {size : Nat} {b done : Building}

/-- Nothing is left open: no scope but the outermost one, where the level is public, and no
documentation that waits for an entity. -/
structure AtRest (b : Building) : Prop where
  inner : b.scopes.inner = []
  access : b.scopes.current.access = .pub
  pending : b.pending = none

/-- A reading changes neither the source nor the outermost scope, but for the access level that
holds there. -/
theorem fixed_of_run {ts : List Token} (h : b.run policy merge size ts = .ok done) :
    done.outline.source = b.outline.source ∧
      done.scopes.outermost.entity = b.scopes.outermost.entity ∧
      done.scopes.outermost.defaultAccess = b.scopes.outermost.defaultAccess := by
  refine related_of_run (R := fun b b' => b'.outline.source = b.outline.source ∧
      b'.scopes.outermost.entity = b.scopes.outermost.entity ∧
      b'.scopes.outermost.defaultAccess = b.scopes.outermost.defaultAccess)
    (fun _ => ⟨rfl, rfl, rfl⟩) ?_ ?_ (fun _ _ => ⟨rfl, rfl, rfl⟩) h
  · rintro b b₁ b₂ ⟨hsource, hentity, hdefault⟩ ⟨hsource', hentity', hdefault'⟩
    exact ⟨hsource'.trans hsource, hentity'.trans hentity, hdefault'.trans hdefault⟩
  · intro b item
    cases item with
    | close brace =>
      simp only [add, Scopes.pop?]
      cases b.scopes.inner with
      | nil => exact ⟨rfl, rfl, rfl⟩
      | cons frame frames => exact ⟨rfl, rfl, rfl⟩
    | access level d =>
      refine ⟨rfl, ?_⟩
      show (b.scopes.setAccess level).outermost.entity = _ ∧
        (b.scopes.setAccess level).outermost.defaultAccess = _
      unfold Scopes.setAccess
      split <;> exact ⟨rfl, rfl⟩
    | _ => exact ⟨rfl, rfl, rfl⟩

theorem source_finish (b : Building) : b.finish.source = b.outline.source := by
  unfold finish
  split <;> rfl

/-- **What is at rest is a beginning**, behind what has been built. -/
theorem AtRest.building_start (h : done.AtRest) (hroot : done.outline.HasRoot)
    (hentity : done.scopes.outermost.entity = Outline.root)
    (hdefault : done.scopes.outermost.defaultAccess = .pub) (file : String) (source : Text) :
    (Transfer.behind hroot).building (start file source done.definitions) = done := by
  obtain ⟨outline, ⟨inner, ⟨entity, defaultAccess, access⟩⟩, pending, definitions⟩ := done
  obtain rfl : inner = [] := h.inner
  obtain rfl : access = .pub := h.access
  obtain rfl : pending = none := h.pending
  obtain rfl : entity = Outline.root := hentity
  obtain rfl : defaultAccess = .pub := hdefault
  have houtline : (Transfer.behind hroot).outline (.ofSource file source) = outline :=
    outline.joined_ofSource file source
  have hscopes : (Scopes.ofRoot Outline.root).renumber (Transfer.behind hroot).number
      = .ofRoot Outline.root := by
    simp only [Scopes.renumber, Scopes.ofRoot, Frame.renumber, Frame.opened, List.map_nil,
      (Transfer.behind hroot).number_root]
  rw [start, Transfer.building, houtline, hscopes]
  rfl

theorem start_covering (file : String) (source s : Text) (ds : Definitions) :
    (start file source ds).covering s = start file s ds := by
  rw [covering, start, Outline.covering_ofSource]
  rfl

/-- **The reading of two headers in one**, of which the first one is sealed, clean and left at rest,
builds what the second one leads to, carried over behind the first one. -/
theorem run_append {file file' : String} {a b : Text} {ds : Definitions} {done' : Building}
    {ts us : List Token} (hs : Tokens.Sealed ts) (hh : ∀ t ∈ ts, t.kind ≠ .punct .hash)
    (hr : (start file a ds).run policy merge a.size ts = .ok done)
    (hd : done.outline.diagnostics = #[]) (hrest : done.AtRest) (hroot : done.outline.HasRoot)
    (hr' : (start file' b ds).run policy merge b.size us = .ok done') :
    (start file (a ++ b) ds).run policy merge (a ++ b).size
        (ts ++ us.map (Relocation.behind a).token)
      = .ok (((Transfer.behind hroot).building done').covering (a ++ b)) := by
  obtain ⟨hsource, hentity, hdefault⟩ := fixed_of_run hr
  obtain ⟨hdefinitions, hsequel⟩ : done.definitions = ds ∧
      (start file a ds).run policy merge (a ++ b).size (ts ++ us.map (Relocation.behind a).token)
        = done.run policy merge (a ++ b).size (us.map (Relocation.behind a).token) :=
    run_sequel hs hh hr hd _
  have hstart : (Transfer.behind hroot).building (start file' b ds) = done := by
    have hbeginning := hrest.building_start hroot hentity hdefault file' b
    rwa [hdefinitions] at hbeginning
  have hbehind := Transfer.run_building (T := .behind hroot)
    (fun t _ => Relocation.keeps_behind _ t) (Outline.hasRoot_ofSource file' b) hr'
  have htoken : (Transfer.behind hroot).relocation.token = (Relocation.behind a).token := by
    show (Relocation.behind done.outline.source).token = _
    rw [hsource]
    rfl
  have hsize : (Transfer.behind hroot).relocation.offset b.size = (a ++ b).size := by
    show b.size + done.outline.source.size = _
    rw [hsource, Text.size_append, Nat.add_comm]
    rfl
  rw [hstart, htoken, hsize, ← hsequel] at hbehind
  rw [← start_covering file a (a ++ b) ds]
  exact run_covering (Outline.hasRoot_ofSource file a) hbehind (a ++ b)

end Building

/-- The tokens of a text that ends with a semicolon and a line feed. -/
theorem Token.exists_of_kinds [Alphabet] {l : Limits} {a : Text}
    (h : [.punct .semicolon, .newline, .eof] <:+ (Token.scan l a).map (·.kind)) :
    ∃ front s n, (Token.scan l a).dropLast = front ++ [s, n] ∧ s.kind = .punct .semicolon ∧
      n.kind = .newline := by
  obtain ⟨kinds, hkinds⟩ := h
  obtain ⟨front, last, hscan, -, hlast⟩ := List.map_eq_append_iff.mp hkinds.symm
  obtain ⟨s, more, rfl, hs, hmore⟩ := List.map_eq_cons_iff.mp hlast
  obtain ⟨n, more, rfl, hn, hmore⟩ := List.map_eq_cons_iff.mp hmore
  obtain ⟨e, more, rfl, -, hmore⟩ := List.map_eq_cons_iff.mp hmore
  obtain rfl := List.map_eq_nil_iff.mp hmore
  refine ⟨front, s, n, ?_, hs, hn⟩
  rw [hscan, show front ++ [s, n, e] = (front ++ [s, n]) ++ [e] by simp, List.dropLast_concat]

/-- **Parsing is compositional.**  Behind a clean header without directives that ends with a
semicolon and a line feed, and that leaves nothing open, the entities of any other header come
behind its own, at their places in the whole. -/
theorem parse_append [Alphabet] {options : Options} {file file' : String} {a b : Text}
    {oa : Outline} {done : Building} (hpolicy : options.recovery = .resync)
    (hhash : ∀ t ∈ Token.scan options.limits a, t.kind ≠ .punct .hash)
    (hlast : [.punct .semicolon, .newline, .eof] <:+ (Token.scan options.limits a).map (·.kind))
    (ha : parse options file a = .ok oa) (hclean : oa.diagnostics = #[])
    (hrun : (Building.start file a options.definitions).run options.recovery
      options.mergeLineComments a.size (Token.scan options.limits a).dropLast = .ok done)
    (hrest : done.AtRest) (hb : (Token.scan options.limits b).any Token.isError = false)
    (hab : (Token.scan options.limits (a ++ b)).any Token.isError = false) :
    ∃ ob, parse options file' b = .ok ob ∧
      parse options file (a ++ b) = .ok (oa.followedBy ob) := by
  obtain ⟨hsound, done', hrun', rfl⟩ := parse_eq_ok_iff.mp ha
  obtain rfl := Except.ok.inj (hrun'.symm.trans hrun)
  have hfinish : done'.finish = done'.outline := by rw [Building.finish, hrest.pending]
  rw [hfinish] at hclean ⊢
  rw [hpolicy] at hrun
  -- the tokens of the whole, of which those of the first header are sealed
  obtain ⟨front, s, n, htokens, hs, hn⟩ := Token.exists_of_kinds hlast
  have hline : (Token.scan options.limits a).dropLast = (front ++ [s]) ++ [n] := by
    rw [htokens, List.append_assoc]
    rfl
  have hwhole := Token.scan_append hsound hb hab hline hn
  have hsealed : Tokens.Sealed (Token.scan options.limits a).dropLast := by
    rw [htokens]
    refine Tokens.sealed_of_append hs fun t ht => ?_
    rw [List.mem_singleton.mp ht, hn]
    rfl
  have hroot := Building.hasRoot_run (Outline.hasRoot_ofSource file a) hrun
  obtain ⟨doneB, hrunB⟩ : ∃ doneB, (Building.start file' b options.definitions).run .resync
      options.mergeLineComments b.size (Token.scan options.limits b).dropLast = .ok doneB := by
    obtain ⟨doneB, -, hrunB, -⟩ := Building.run_strict options.mergeLineComments b.size
      (Building.start file' b options.definitions) (Token.scan options.limits b).dropLast
    exact ⟨doneB, hrunB⟩
  have happend := Building.run_append hsealed (fun t ht => hhash t (List.dropLast_subset _ ht)) hrun
    hclean hrest hroot hrunB
  rw [← hwhole] at happend
  refine ⟨doneB.finish, parse_eq_ok_iff.mpr ⟨hb, doneB, by rw [hpolicy]; exact hrunB, rfl⟩,
    parse_eq_ok_iff.mpr ⟨hab, _, by rw [hpolicy]; exact happend, ?_⟩⟩
  have hrootB := Building.hasRoot_run (Outline.hasRoot_ofSource file' b) hrunB
  have hplaced : doneB.PendingPlaced := Building.PendingPlaced.run (fun c hc => by cases hc) hrunB
  have hsource : done'.outline.source = a := (Building.fixed_of_run hrun).1
  have hsourceB : doneB.finish.source = b := by
    rw [Building.source_finish]
    exact (Building.fixed_of_run hrunB).1
  rw [Building.finish_covering (Transfer.hasRoot_building hrootB)
    (Transfer.pendingPlaced_building hplaced), Transfer.finish_building hrootB hplaced,
    Outline.followedBy, hsource, hsourceB]
  rfl

/-- A class, and behind it a variable, a brace that closes nothing and documentation of nothing. -/
theorem parse_append_class :
    ∃ oa ob, parse .standard "a.h" "class A \x7b int x; \x7d;\n".toList = .ok oa ∧
      parse .standard "b.h" "int y;\n\x7d /// z".toList = .ok ob ∧ ob.diagnostics.size = 1 ∧
      parse .standard "a.h" ("class A \x7b int x; \x7d;\n".toList ++ "int y;\n\x7d /// z".toList)
        = .ok (oa.followedBy ob) := by
  obtain ⟨oa, ha, hclean⟩ := exists_of_toOption_any (p := (·.diagnostics == #[]))
    (x := parse .standard "a.h" "class A \x7b int x; \x7d;\n".toList) (by decide +kernel)
  obtain ⟨done, hrun, hrest⟩ := exists_of_toOption_any
    (p := fun b => b.scopes.inner == [] && (b.scopes.current.access == .pub && b.pending == none))
    (x := (Building.start "a.h" "class A \x7b int x; \x7d;\n".toList .empty).run .resync true
      (Text.size "class A \x7b int x; \x7d;\n".toList)
      (Token.scan .standard "class A \x7b int x; \x7d;\n".toList).dropLast) (by decide +kernel)
  simp only [Bool.and_eq_true, beq_iff_eq] at hrest
  obtain ⟨ob', hb', hdiagnostics⟩ := exists_of_toOption_any (p := (·.diagnostics.size == 1))
    (x := parse .standard "b.h" "int y;\n\x7d /// z".toList) (by decide +kernel)
  obtain ⟨ob, hb, hab⟩ : ∃ ob, parse .standard "b.h" "int y;\n\x7d /// z".toList = .ok ob ∧
      parse .standard "a.h" ("class A \x7b int x; \x7d;\n".toList ++ "int y;\n\x7d /// z".toList)
        = .ok (oa.followedBy ob) :=
    parse_append rfl (by decide +kernel) (by decide +kernel) ha (eq_of_beq hclean) hrun
      ⟨hrest.1, hrest.2.1, hrest.2.2⟩ (by decide +kernel) (by decide +kernel)
  obtain rfl := Except.ok.inj (hb'.symm.trans hb)
  exact ⟨oa, ob', ha, hb, eq_of_beq hdiagnostics, hab⟩

end HeaderOutline
