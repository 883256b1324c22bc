import Quill.Proofs.Template.Building

/-!
The nodes of a compiled template and the tokens of its source.

Every token becomes one node, but for the tags that continue or close a block, and the nodes stand
in the tree in the order of their tokens, each before what it holds.  What kind of node a token
becomes can be read off the token.
-/

namespace Quill

/-! ## What tokens become -/

namespace Token

def continues (t : Token) : Bool :=
  t.kind == .block && ["endfor", "elif", "else", "endif"].contains t.command

def makes (t : Token) : Node.Kind → Bool
  | .text => t.kind == .text
  | .output => t.kind == .output
  | .loop => t.kind == .block && t.command == "for"
  | .choice => t.kind == .block && t.command == "if"

variable {t : Token}

theorem continues_of_kind (h : t.kind ≠ .block) : t.continues = false := by
  simp [continues, h]

theorem IsBare.continues {word : String} (h : t.IsBare word) (hword : Text.Solid word.toList)
    (hmem : word ∈ ["endfor", "elif", "else", "endif"]) : t.continues = true := by
  have hcommand := ((isBare_iff h.1 hword).mp h).1
  rw [Token.continues, h.1, hcommand]
  simpa using hmem

theorem IsCondition.command_eq {word : String} {e : Expr} (h : t.IsCondition word e)
    (ht : t.Tidy) (hword : Text.Solid word.toList) : t.command = word :=
  ((isCondition_iff ht h.1 hword).mp h).1

theorem IsLoop.command_eq {name : String} {items : Expr} (h : t.IsLoop name items)
    (ht : t.Tidy) : t.command = "for" :=
  ((isLoop_iff ht h.1).mp ⟨name, items, rfl, h⟩).1

end Token

/-- Whether a node is of the kind that its token makes, and of no other. -/
def Node.Fits (n : Node) : Prop := ∀ k, n.token.makes k = true ↔ n.kind = k

namespace Template

open Node

/-! ## The nodes of a derivation -/

mutual

/-- The nodes that tokens spell have these tokens in order, without those that continue or close a
block. -/
theorem Spells.map_token {tokens : List Token} {nodes : List Node} (h : Spells tokens nodes)
    (htidy : ∀ t ∈ tokens, t.Tidy) :
    (allOf nodes).map Node.token = tokens.filter fun t => !t.continues := by
  match h with
  | .nil => rfl
  | @Spells.text t tokens nodes hkind h =>
    have ht : t.continues = false := Token.continues_of_kind (by simp [hkind])
    have hrest := h.map_token fun u hu => htidy u (List.mem_cons_of_mem t hu)
    simp [allOf, all, Node.token, ht, hrest]
  | @Spells.output t p tokens nodes hout h =>
    have ht : t.continues = false := Token.continues_of_kind (by simp [hout.1])
    have hrest := h.map_token fun u hu => htidy u (List.mem_cons_of_mem t hu)
    simp [allOf, all, Node.token, ht, hrest]
  | @Spells.loop t stop name items inner tokens body nodes hloop hbody hstop h =>
    have ht : t.continues = false := by
      simp [Token.continues, hloop.command_eq (htidy t (by simp))]
    have hend : stop.continues = true := hstop.continues (by decide) (by decide)
    have hinner := hbody.map_token fun u hu => htidy u (by simp [hu])
    have hrest := h.map_token fun u hu => htidy u (by simp [hu])
    simp [allOf, all, Node.token, ht, hend, hinner, hrest]
  | @Spells.choice t condition inner more tokens body nodes arms hcondition hbody harms h =>
    have ht : t.continues = false := by
      simp [Token.continues, hcondition.command_eq (htidy t (by simp)) (by decide)]
    have hinner := hbody.map_token fun u hu => htidy u (by simp [hu])
    have hmore := harms.map_token fun u hu => htidy u (by simp [hu])
    have hrest := h.map_token fun u hu => htidy u (by simp [hu])
    simp [allOf, all, allOfArms, Node.token, ht, hinner, hmore, hrest]

theorem SpellsArms.map_token {tokens : List Token} {arms : List Arm} (h : SpellsArms tokens arms)
    (htidy : ∀ t ∈ tokens, t.Tidy) :
    (allOfArms arms).map Node.token = tokens.filter fun t => !t.continues := by
  match h with
  | .close hstop =>
    have hend := hstop.continues (by decide) (by decide)
    simp [allOfArms, hend]
  | @SpellsArms.condition t condition inner more body arms hcondition hbody harms =>
    have ht : t.continues = true := by
      simp [Token.continues, hcondition.1, hcondition.command_eq (htidy t (by simp)) (by decide)]
    have hinner := hbody.map_token fun u hu => htidy u (by simp [hu])
    have hmore := harms.map_token fun u hu => htidy u (by simp [hu])
    simp [allOfArms, ht, hinner, hmore]
  | @SpellsArms.default t stop inner body helse hbody hstop =>
    have ht : t.continues = true := helse.continues (by decide) (by decide)
    have hend : stop.continues = true := hstop.continues (by decide) (by decide)
    have hinner := hbody.map_token fun u hu => htidy u (by simp [hu])
    simp [allOfArms, ht, hend, hinner]

end

mutual

theorem Spells.fits {tokens : List Token} {nodes : List Node} (h : Spells tokens nodes)
    (htidy : ∀ t ∈ tokens, t.Tidy) : ∀ n ∈ allOf nodes, n.Fits := by
  intro n hn
  match h with
  | .nil => cases hn
  | @Spells.text t tokens nodes hkind h =>
    rcases List.mem_cons.mp hn with rfl | hn
    · intro k
      cases k <;> simp [Node.token, Token.makes, Node.kind, hkind]
    · exact h.fits (fun u hu => htidy u (by simp [hu])) n hn
  | @Spells.output t p tokens nodes hout h =>
    rcases List.mem_cons.mp hn with rfl | hn
    · intro k
      cases k <;> simp [Node.token, Token.makes, Node.kind, hout.1]
    · exact h.fits (fun u hu => htidy u (by simp [hu])) n hn
  | @Spells.loop t stop name items inner tokens body nodes hloop hbody hstop h =>
    have ht := hloop.command_eq (htidy t (by simp))
    rw [allOf, all, List.cons_append, List.mem_cons, List.mem_append] at hn
    rcases hn with rfl | hn | hn
    · intro k
      cases k <;> simp [Node.token, Token.makes, Node.kind, hloop.1, ht]
    · exact hbody.fits (fun u hu => htidy u (by simp [hu])) n hn
    · exact h.fits (fun u hu => htidy u (by simp [hu])) n hn
  | @Spells.choice t condition inner more tokens body nodes arms hcondition hbody harms h =>
    have ht := hcondition.command_eq (htidy t (by simp)) (by decide)
    rw [allOf, all, allOfArms, List.cons_append, List.mem_cons, List.mem_append,
      List.mem_append] at hn
    rcases hn with rfl | (hn | hn) | hn
    · intro k
      cases k <;> simp [Node.token, Token.makes, Node.kind, hcondition.1, ht]
    · exact hbody.fits (fun u hu => htidy u (by simp [hu])) n hn
    · exact harms.fits (fun u hu => htidy u (by simp [hu])) n hn
    · exact h.fits (fun u hu => htidy u (by simp [hu])) n hn

theorem SpellsArms.fits {tokens : List Token} {arms : List Arm} (h : SpellsArms tokens arms)
    (htidy : ∀ t ∈ tokens, t.Tidy) : ∀ n ∈ allOfArms arms, n.Fits := by
  intro n hn
  match h with
  | .close _ => cases hn
  | .condition _ hbody harms =>
    rw [allOfArms, List.mem_append] at hn
    rcases hn with hn | hn
    · exact hbody.fits (fun u hu => htidy u (by simp [hu])) n hn
    · exact harms.fits (fun u hu => htidy u (by simp [hu])) n hn
  | .default _ hbody _ =>
    rw [allOfArms, allOfArms, List.append_nil] at hn
    exact hbody.fits (fun u hu => htidy u (by simp [hu])) n hn

end

/-- No node is lost, made twice or moved: the tokens of all nodes of a template, in order, are those
of its source without the tags that continue or close a block, and the walk for the nodes of one
kind gives those of them whose tokens make that kind. -/
theorem nodes_of_compile {g : Setting} {located : Bool} {name : Option String} {source : String}
    {t : Template} (h : compile g located name source = .ok t) :
    (allOf t.nodes).map Node.token =
        (Token.tokens located source).filter (fun token => !token.continues) ∧
      ∀ k, allOfKind k t.nodes = (allOf t.nodes).filter fun n => n.token.makes k := by
  obtain ⟨nodes, hspells, rfl⟩ := compile_eq_ok_iff.mp h
  have htidy : ∀ token ∈ Token.tokens located source, token.Tidy :=
    fun _ => Token.tidy_of_mem_tokens
  refine ⟨hspells.map_token htidy, fun k => ?_⟩
  rw [allOfKind, selectOf_eq_filter]
  refine List.filter_congr fun n hn => ?_
  rw [Bool.eq_iff_iff, hspells.fits htidy n hn k, beq_iff_eq]

/-- A choice in a loop: the tags of the second branch and of the two ends are no nodes. -/
theorem nodes_of_compile_nested :
    let source := "{% for x in y %}{% if x %}a{% else %}{{ x }}{% endif %}{% endfor %}b"
    ∃ t, compile ⟨[], true, 32, 9⟩ false none source = .ok t ∧
      (allOf t.nodes).map Node.token =
        (Token.tokens false source).filter (fun token => !token.continues) ∧
      (allOfKind .choice t.nodes = (allOf t.nodes).filter fun n => n.token.makes .choice) ∧
      (allOf t.nodes).map Node.kind = [.loop, .choice, .text, .output, .text] := by
  intro source
  have hkinds : (compile ⟨[], true, 32, 9⟩ false none source).toOption.map
      (fun t => (allOf t.nodes).map Node.kind) =
        some [.loop, .choice, .text, .output, .text] := by
    decide +kernel
  cases hcompile : compile ⟨[], true, 32, 9⟩ false none source with
  | error report =>
    rw [hcompile] at hkinds
    cases hkinds
  | ok t =>
    rw [hcompile] at hkinds
    obtain ⟨htokens, hkind⟩ := nodes_of_compile hcompile
    exact ⟨t, rfl, htokens, hkind .choice, Option.some.inj hkinds⟩

end Template
end Quill
