import Entail.Fault

/-! The files of the working directory and how a name is followed to one of them, part by part,
with the faults of a missing, misplaced, undecodable or overlong name. -/

namespace Entail.Files

/-- The sample rule books, by their names in the working directory. -/
def samples : List (String × String) := [
  ("rules/and",
    "A + B => C\n" ++
    "A + D => C\n" ++
    "\n" ++
    "=AD\n" ++
    "?C\n"),
  ("rules/example",
    "# this is a comment\n" ++
    "# all the required rules and symbols, along with the bonus ones, will be\n" ++
    "# shown here. spacing is not important\n" ++
    "\n" ++
    "C => E                          # C implies E\n" ++
    "A + B + C => D                  # A and B and C implies D\n" ++
    "A | B => C                      # A or B implies C\n" ++
    "A + !B => F                     # A and not B implies F\n" ++
    "C | !G => H                     # C or not G implies H\n" ++
    "V ^ W <=> X                      # V xor W implies X\n" ++
    "A + B => Y + Z                  # A and B implies Y and Z\n" ++
    "C | D => X | V                  # C or D implies X or V\n" ++
    "E + F => !V                     # E and F implies not V\n" ++
    "A + B <=> C                     # A and B if and only if C\n" ++
    "A + B <=> !C                    # A and B if and only if not C\n" ++
    "=ABGEF                            # Initial facts : A, B and G are true. All others are false.\n" ++
    "\n" ++
    "# If no facts are initially true, then a simple \"=\" followed\n" ++
    "# by a newline is used\n" ++
    "\n" ++
    "?VXAF                            # Queries : What are G, V and X ?\n"),
  ("rules/iff",
    "A <=> B\n" ++
    "\n" ++
    "=C\n" ++
    "?B\n"),
  ("rules/implication",
    "A ^ !A <=> B\n" ++
    "\n" ++
    "=AD\n" ++
    "?AB\n"),
  ("rules/not",
    "!A => B\n" ++
    "\n" ++
    "=C\n" ++
    "?B\n"),
  ("rules/or",
    "F | E => C\n" ++
    "A | B => C\n" ++
    "\n" ++
    "=B\n" ++
    "?C\n"),
  ("rules/or2",
    "A | B => C\n" ++
    "\n" ++
    "=A\n" ++
    "?C\n"),
  ("rules/xor",
    "A ^ B => C\n" ++
    "E ^ F => C\n" ++
    "A ^ E => C\n" ++
    "\n" ++
    "=AE\n" ++
    "?C\n"),
  ("rules/weird/ex_input.txt",
    "# this is a comment$\n" ++
    "# all the required rules and symbols, along with the bonus ones, will be\n" ++
    "# shown here. spacing is not important\n" ++
    "C => E # C implies E\n" ++
    "A + B + C => D # A and B and C implies D\n" ++
    "#A | B => C # A or B implies C\n" ++
    "#A + !B => F # A and not B implies F\n" ++
    "#C | !G => H # C or not G implies H\n" ++
    "#V ^ W => X # V xor W implies X\n" ++
    "#A + B => Y + Z # A and B implies Y and Z\n" ++
    "#C | D => X | V # C or D implies X or V\n" ++
    "#E + F => !V # E and F implies not V\n" ++
    "#A + B <=> C # A and B if and only if C\n" ++
    "#A + B <=> !C # A and B if and only if not C\n" ++
    "#A | (B + !(!C) + E) => D\n" ++
    "            \n" ++
    "\n" ++
    "\n" ++
    "=ABG # Initial facts : A, B and G are true. All others are false.\n" ++
    "                       # If no facts are initially true, then a simple \"=\" followed\n" ++
    "             # by a newline is used\n" ++
    "?GVX # Queries : What are G, V and X ?"),
  ("rules/weird/ex_simple.txt",
    "# this is a comment$\n" ++
    "# all the required rules and symbols, along with the bonus ones, will be\n" ++
    "# shown here. spacing is not important\n" ++
    "A | B + C => E \n" ++
    "(F | G) + H => E \n" ++
    "\n" ++
    "=ABG # Initial facts : A, B and G are true. All others are false.\n" ++
    "                       # If no facts are initially true, then a simple \"=\" followed\n" ++
    "             # by a newline is used\n" ++
    "?GVX # Queries : What are G, V and X ?"),
  ("rules/weird/recursive_implication",
    "A => B\n" ++
    "\n" ++
    "=A\n" ++
    "?AB\n"),
  ("rules/weird/t1.txt",
    "B => A \n" ++
    "D + E => B \n" ++
    "G + H => F \n" ++
    "I + J => G \n" ++
    "G => H \n" ++
    "L + M => K \n" ++
    "O + P => L + N \n" ++
    "N => M \n" ++
    "\n" ++
    "=DEIJOP\n" ++
    "\n" ++
    "?AFKP \n")]

/-- The other text files of the working directory, which are no rule books. -/
def others : List (String × String) := [
  ("README.md",
    "## Expert System - Propositional Inference Calculator\n" ++
    "\n" ++
    "### Bonuses\n" ++
    "\n" ++
    "* Interactive mode\n" ++
    "* Verbose mode\n" ++
    "* Xor in conclusion\n" ++
    "* Or in conclusion\n" ++
    "* IFF (equivalence)\n" ++
    "\n" ++
    "### Truth Tables\n" ++
    "\n" ++
    "Implication\n" ++
    "\n" ++
    "| X | Y | X => Y |\n" ++
    "|---|---|---------|\n" ++
    "|0 | 0 | 1|\n" ++
    "|0 | 1 | 1|\n" ++
    "|1 | 0 | 0|\n" ++
    "|1 | 1 | 1|\n" ++
    "\n" ++
    "Equivalence\n" ++
    "\n" ++
    "| X | Y | X <=> Y |\n" ++
    "|---|---|---------|\n" ++
    "|0 | 0 | 1|\n" ++
    "|0 | 1 | 0|\n" ++
    "|1 | 0 | 0|\n" ++
    "|1 | 1 | 1|\n" ++
    "\n" ++
    "### Design doc\n" ++
    "\n" ++
    "Expert system consists of:\n" ++
    "\n" ++
    "Set of rules in format Condition => Conclusion, where both Condition and Conclusion can be Expression.\n" ++
    "\n" ++
    "If we solve condition, we can say what conclusion term should evaluate for:\n" ++
    "\n" ++
    "```\n" ++
    "A => B\n" ++
    "\n" ++
    "=\n" ++
    "\n" ++
    "?B\n" ++
    "```\n" ++
    "\n" ++
    "Ths can be written as statement: \"if 10 > 42 then Pavel eats chocolate cupcakes\".\n" ++
    "Since condition is False, we don't have sufficient information to tell anything about the conclusion. However, if it's True, the result totally depends on right side.\n" ++
    "\n" ++
    "### Acknowledgement\n" ++
    "\n" ++
    "[Pseudo-code](./doc) is a courtesy of [@elyahove](https://github.com/ely-uf)\n"),
  ("author",
    "ptyshevs\n" ++
    "vpaladii\n"),
  ("doc",
    "resolve query:\n" ++
    "    lookup among atomic\n" ++
    "    if found\n" ++
    "        return\n" ++
    "    else\n" ++
    "        push query\n" ++
    "        resolve among complex\n" ++
    "        pop query\n" ++
    "\n" ++
    "resolve among complex:\n" ++
    "    find all propositions with query as a part of rhs\n" ++
    "    for query in found\n" ++
    "        result <- solve lhs\n" ++
    "        if result is undetermined\n" ++
    "            undetermined\n" ++
    "        if implication\n" ++
    "            if result is true\n" ++
    "                solve rhs as true\n" ++
    "            else\n" ++
    "                undetermined\n" ++
    "        else if iff\n" ++
    "            solve rhs as result\n" ++
    "\n" ++
    "\n" ++
    "solve rhs as result:\n" ++
    "    if result if undetermined\n" ++
    "        undetermined\n" ++
    "    if rhs is atomic\n" ++
    "        result\n" ++
    "    if rhs operation is NOT\n" ++
    "        not result\n" ++
    "    if binary operation (a,b):\n" ++
    "        let second = if fact == a then b else a \n" ++
    "        if OR and result is false\n" ++
    "            false\n" ++
    "        if OR and result is true\n" ++
    "            if second is false\n" ++
    "                true\n" ++
    "            else\n" ++
    "                undetermined\n" ++
    "        if AND and result is true\n" ++
    "            true\n" ++
    "        if AND and result is false\n" ++
    "            if second is true\n" ++
    "                false\n" ++
    "            else\n" ++
    "                undetermined\n" ++
    "        if XOR and result is false\n" ++
    "            return second\n" ++
    "        if XOR and result is true\n" ++
    "            not second\n"),
  ("Fact.py",
    "class Fact:\n" ++
    "    state_map = \x7bFalse: -1, None: 0, True: 1\x7d\n" ++
    "\n" ++
    "    def __init__(self, name, value=None):\n" ++
    "        self.name = name\n" ++
    "        self.atomic = True\n" ++
    "        # Value can be -1, 0, 1 representing False, None, True\n" ++
    "        # if type(value) is bool or value is None:\n" ++
    "            # self.value = self.state_map[value]\n" ++
    "        # else:\n" ++
    "            # if value not in [-1, 0, 1]:\n" ++
    "                # raise ValueError(f\"Fact can only have three values [-1, 0, 1], not \x7bvalue\x7d\")\n" ++
    "        self.value = value\n" ++
    "    \n" ++
    "    def __and__(self, o):\n" ++
    "        if type(o) is Fact:\n" ++
    "            return Fact(f'\x7bself.name\x7d & \x7bo.name\x7d', min(self.value, o.value))\n" ++
    "        elif type(o) is bool:\n" ++
    "            return self.value & o\n" ++
    "        else:\n" ++
    "            raise NotImplementedError(f\"\x7bself\x7d + \x7bo\x7d is not implemented\")\n" ++
    "    \n" ++
    "    def __or__(self, o):\n" ++
    "        if type(o) is Fact:\n" ++
    "            return Fact(f'\x7bself.name\x7d | \x7bo.name\x7d', max(self.value, o.value))\n" ++
    "        elif type(o) is bool:\n" ++
    "            return self.value | o\n" ++
    "        else:\n" ++
    "            raise NotImplementedError(f'\x7bself\x7d | \x7bo\x7d is not implemented')\n" ++
    "    \n" ++
    "    def __xor__(self, o):\n" ++
    "        if type(o) is Fact:\n" ++
    "            return Fact(self.name, self.value ^ o.value)\n" ++
    "        elif type(o) is bool:\n" ++
    "            return self.value ^ o\n" ++
    "        else:\n" ++
    "            raise NotImplementedError(f\"\x7bself\x7d ^ \x7bo\x7d is not implemented\")\n" ++
    "\n" ++
    "    def imply(self, o):\n" ++
    "        if type(o) is Fact:\n" ++
    "            if self.value and not o.value:\n" ++
    "                return Fact(self.name, False)\n" ++
    "            else:\n" ++
    "                return Fact(self.name, True)\n" ++
    "        else:\n" ++
    "            raise ValueError(f\"\x7bself\x7d => \x7bo\x7d is not implemented\")\n" ++
    "\n" ++
    "    def equivalent(self, o):\n" ++
    "        if type(o) is Fact:\n" ++
    "            if (self.value and o.value) or (not self.value and not o.value):\n" ++
    "                return Fact(self.name, True)\n" ++
    "            else:\n" ++
    "                return Fact(self.name, False)\n" ++
    "        else:\n" ++
    "            raise ValueError(f\"\x7bself\x7d <=> \x7bo\x7d is not implemented\")\n" ++
    "\n" ++
    "    def __neg__(self):\n" ++
    "        return Fact(f'!\x7bself.name\x7d', not self.value)\n" ++
    "    \n" ++
    "    def __repr__(self):\n" ++
    "        r = self.value\n" ++
    "        at = 'T' if self.atomic else 'F'\n" ++
    "        return f'\x7bself.name\x7d: \x7br\x7d [\x7bat\x7d]'\n" ++
    "\n" ++
    "if __name__ == '__main__':\n" ++
    "    a = Fact('A', True)\n" ++
    "    b = Fact('B', None)\n" ++
    "    print(a & b)"),
  ("es.py",
    "import argparse\n" ++
    "import string\n" ++
    "import sys\n" ++
    "from Fact import Fact\n" ++
    "\n" ++
    "\n" ++
    "class Operator:\n" ++
    "    precedence_map = \x7b'<=>': 1, '=>': 2, '^': 3, '|': 4, '+' : 5, '!': 6, '=': 0\x7d\n" ++
    "    # assoc_map = \x7b'+': 'left', '-': 'left', '*': 'left', '/': 'left', '%': 'left',\n" ++
    "                #  '^': 'right', '=': 'right', '**': 'left', '?': 'left'\x7d\n" ++
    "\n" ++
    "    def __init__(self, op):\n" ++
    "        self.op = op\n" ++
    "        self.name = op\n" ++
    "        self.n_operands = 2 if op != '!' else 1\n" ++
    "        self.precedence = self.precedence_map[op]\n" ++
    "    \n" ++
    "    def eval(self, l, r=None, **kwargs):\n" ++
    "        if type(l) is Fact:\n" ++
    "            l = l.value\n" ++
    "        if type(r) is Fact:\n" ++
    "            r = r.value\n" ++
    "        if self.op == '+':\n" ++
    "            return l & r\n" ++
    "        elif self.op == '!':\n" ++
    "            return not l\n" ++
    "        elif self.op == '|':\n" ++
    "            return r | l\n" ++
    "        elif self.op == '^':\n" ++
    "            return r ^ l\n" ++
    "        return r\n" ++
    "    \n" ++
    "    def __repr__(self):\n" ++
    "        return self.op\n" ++
    "\n" ++
    "def expand_tokens(tokens):\n" ++
    "    exp = []\n" ++
    "    n = len(tokens)\n" ++
    "    i = 0\n" ++
    "    while i < n:\n" ++
    "        tk = tokens[i]\n" ++
    "        if tk in '()':\n" ++
    "            exp.append(tk)\n" ++
    "        elif tk in '!+|^':\n" ++
    "            exp.append(Operator(tk))\n" ++
    "        elif tk == '<':\n" ++
    "            if i < n - 2 and tokens[i+1] == '=' and tokens[i+2] == '>':\n" ++
    "                exp.append(Operator('<=>'))\n" ++
    "                i += 2\n" ++
    "            else:\n" ++
    "                raise ValueError(f\"Invalid token: \x7btk\x7d\")\n" ++
    "        elif tk == '=':\n" ++
    "            if i < n - 1 and tokens[i+1] == '>':\n" ++
    "                exp.append(Operator('=>'))\n" ++
    "                i += 1\n" ++
    "            else:\n" ++
    "                exp.append(Operator('='))\n" ++
    "        elif tk in string.ascii_uppercase:\n" ++
    "            exp.append(Fact(tk))\n" ++
    "        else:\n" ++
    "            raise ValueError(f'Invalid token: \x7btk\x7d')\n" ++
    "        \n" ++
    "        i += 1\n" ++
    "    return exp\n" ++
    "\n" ++
    "def infix_to_rpn(expr):\n" ++
    "    operators = []  # Stack\n" ++
    "    output = []  # Queue\n" ++
    "    # print(\"INFIX TO RPN\")\n" ++
    "    while expr:\n" ++
    "        tk = expr.pop(0)\n" ++
    "        # print(f'tk=\x7btk\x7d, type=\x7btype(tk)\x7d')\n" ++
    "        if type(tk) is Fact:\n" ++
    "            output.append(tk)\n" ++
    "        elif type(tk) is Operator:\n" ++
    "            while True:\n" ++
    "                if len(operators) == 0:\n" ++
    "                    break\n" ++
    "                head = operators[-1]\n" ++
    "                if head == '(':\n" ++
    "                    break\n" ++
    "                elif type(head) is Operator and head.precedence >= tk.precedence:\n" ++
    "                    output.append(operators.pop())\n" ++
    "                else:\n" ++
    "                    break\n" ++
    "            operators.append(tk)\n" ++
    "        elif tk == '(':\n" ++
    "            operators.append(tk)\n" ++
    "        elif tk == ')':\n" ++
    "            found_bracket = False\n" ++
    "            while True:\n" ++
    "                if len(operators) == 0:\n" ++
    "                    break\n" ++
    "                head = operators[-1]\n" ++
    "                if head == '(':\n" ++
    "                    found_bracket = True\n" ++
    "                    break\n" ++
    "                output.append(operators.pop())\n" ++
    "            if not found_bracket:\n" ++
    "                raise ValueError(\"Mismatched parentheses\")\n" ++
    "            assert operators[-1] == '('\n" ++
    "            operators.pop()\n" ++
    "    while operators:\n" ++
    "        op = operators.pop()\n" ++
    "        if op in ['(', ')']:\n" ++
    "            raise ValueError(\"Mismatched parentheses\")\n" ++
    "        output.append(op)\n" ++
    "    return output     \n" ++
    "\n" ++
    "def evaluate_rpn(rpn, facts, rules, verbose=False):\n" ++
    "    eval_stack = []\n" ++
    "    while rpn:\n" ++
    "        val = rpn.pop(0)\n" ++
    "        if type(val) is Fact:\n" ++
    "            res = resolve_query(rules, facts, val, verbose=verbose)\n" ++
    "            \n" ++
    "            if res is None:\n" ++
    "                val.value = False\n" ++
    "            else:\n" ++
    "                val = res\n" ++
    "            eval_stack.append(val)\n" ++
    "        elif type(val) is Operator:\n" ++
    "            n_op = val.n_operands\n" ++
    "            if not eval_stack:\n" ++
    "                raise ValueError(f\"Not enough operands to perform calculation | Operator \x7bval\x7d (\x7btype(val)\x7d)\")\n" ++
    "            op = eval_stack.pop()\n" ++
    "            # op = resolve_query(rules, facts, op, verbose=True)\n" ++
    "            if n_op == 1:\n" ++
    "                r = val.eval(op)\n" ++
    "                eval_stack.append(r)\n" ++
    "            else:\n" ++
    "                if not eval_stack:\n" ++
    "                    raise ValueError(f\"Not enough operands to perform calculation | Operator \x7bval\x7d, op1 \x7bop\x7d\")\n" ++
    "                else:\n" ++
    "                    op2 = eval_stack.pop()\n" ++
    "                    # op2 = resolve_query(rules, facts, op2, verbose=True)\n" ++
    "                    eval_stack.append(val.eval(op, op2))\n" ++
    "        else:\n" ++
    "            raise NotImplementedError(val, type(val))\n" ++
    "    if len(eval_stack) != 1:\n" ++
    "        raise ValueError(\"Expression doesn't evaluate to a single value\")\n" ++
    "    # print(\"EVAL STACK:\", eval_stack)\n" ++
    "    res = eval_stack[0]\n" ++
    "    if type(res) is bool:\n" ++
    "        return res\n" ++
    "    elif type(res) is Fact:\n" ++
    "        return res.value\n" ++
    "    return res\n" ++
    "\n" ++
    "def evaluate(inp, verbose=False, return_rpn=False):\n" ++
    "    tokens = ''.join(c for c in inp.split(\" \") if c)\n" ++
    "    if verbose:\n" ++
    "        print(\"TOKENS:\", tokens)\n" ++
    "\n" ++
    "    exp = expand_tokens(tokens)\n" ++
    "\n" ++
    "    if verbose:\n" ++
    "        print(\"EXPANDED:\", exp)\n" ++
    "\n" ++
    "    rpn = infix_to_rpn(exp)\n" ++
    "    if verbose:\n" ++
    "        print(\"RPN:\", rpn)\n" ++
    "    if return_rpn:\n" ++
    "        return rpn\n" ++
    "    res = evaluate_rpn(rpn, env)\n" ++
    "    if verbose:\n" ++
    "        print(\"EVAL RESULT:\", res)\n" ++
    "    return res\n" ++
    "\n" ++
    "def parse_file(f):\n" ++
    "    lines = []\n" ++
    "    for line in f:\n" ++
    "        if line.endswith(\"\\n\"):\n" ++
    "            line = line[:-1]\n" ++
    "        if line.startswith(\"#\"):\n" ++
    "            continue\n" ++
    "        elif not line:\n" ++
    "            continue\n" ++
    "        tokens = [c for c in line.split(\" \") if c]\n" ++
    "        if len(tokens) == 0:\n" ++
    "            continue\n" ++
    "        full = True\n" ++
    "        for i in range(len(tokens)):\n" ++
    "            if tokens[i].startswith(\"#\"):\n" ++
    "                full = False\n" ++
    "                r = \" \".join(tokens[:i])\n" ++
    "                if r:\n" ++
    "                    lines.append(r)\n" ++
    "                break\n" ++
    "        if full:\n" ++
    "            lines.append(\" \".join(tokens))\n" ++
    "    return lines\n" ++
    "\n" ++
    "def parse_rule(rule, facts):\n" ++
    "    tokens = ''.join(c for c in rule.split(\" \") if c)\n" ++
    "    exp = expand_tokens(tokens)\n" ++
    "    lhs, consequence, rhs = [], None, []\n" ++
    "\n" ++
    "    is_lhs = True\n" ++
    "    for t in exp:\n" ++
    "        if type(t) is Fact:\n" ++
    "            if t.name in facts:\n" ++
    "                t = facts[t.name]\n" ++
    "            else:\n" ++
    "                facts[t.name] = t\n" ++
    "            if not is_lhs:\n" ++
    "                t.atomic = False\n" ++
    "        if type(t) is str and t in ['=>', '<=>']:\n" ++
    "            consequence = t\n" ++
    "            is_lhs = False\n" ++
    "        elif type(t) is not str and t.name in ['=>', '<=>']:\n" ++
    "            consequence = t\n" ++
    "            is_lhs = False\n" ++
    "        elif is_lhs:\n" ++
    "            lhs.append(t)\n" ++
    "        else:\n" ++
    "            rhs.append(t)\n" ++
    "    if len(lhs) == 0:\n" ++
    "        raise ValueError(f\"\x7brule\x7d: Empty LHS\")\n" ++
    "    elif len(rhs) == 0:\n" ++
    "        raise ValueError(f\"\x7brule\x7d: Empty RHS\")\n" ++
    "    elif consequence is None:\n" ++
    "        raise ValueError(f\"\x7brule\x7d: Consequence is not understood\")\n" ++
    "    return lhs, consequence, rhs\n" ++
    "\n" ++
    "def validate_input(lines):\n" ++
    "    if len(lines) < 2:\n" ++
    "        raise ValueError(\"Input is insufficient for proper working\")\n" ++
    "    rules, init_facts, query = lines[:-2], lines[-2], lines[-1]\n" ++
    "    if not query.startswith(\"?\") or not all(c in string.ascii_uppercase for c in query[1:]):\n" ++
    "        raise ValueError(\"Invalid query:\", query)\n" ++
    "    else:\n" ++
    "        query = query[1:]\n" ++
    "    if not init_facts.startswith(\"=\") or not all(c in string.ascii_uppercase for c in init_facts[1:]):\n" ++
    "        raise ValueError(\"Invalid initial facts:\", init_facts)\n" ++
    "    else:\n" ++
    "        init_facts = init_facts[1:]\n" ++
    "\n" ++
    "    facts = dict()  # List of all known facts, either atomic or complex\n" ++
    "\n" ++
    "    rules_parsed = []\n" ++
    "    for rule in rules:\n" ++
    "        rules_parsed.append(parse_rule(rule, facts))\n" ++
    "    return rules_parsed, init_facts, facts, query\n" ++
    "\n" ++
    "def initialize_facts(init_facts, facts):\n" ++
    "    # Resetting facts (I need this for interactive evaluation)\n" ++
    "    for f in facts.values():\n" ++
    "        if f.atomic:\n" ++
    "            f.value = None\n" ++
    "    for f in init_facts:\n" ++
    "        if f not in facts:\n" ++
    "            print(f\"Initial fact \x7bf\x7d doesn't exist in graph\")\n" ++
    "            continue\n" ++
    "        else:\n" ++
    "            fact = facts[f]\n" ++
    "            if not fact.atomic:\n" ++
    "                fact.atomic = True\n" ++
    "            fact.value = True\n" ++
    "    for f in facts.values():\n" ++
    "        if f.atomic and f.value is None:\n" ++
    "            f.value = False\n" ++
    "\n" ++
    "def solve_rhs(facts, rhs, res, query, verbose=False):\n" ++
    "    if verbose:\n" ++
    "        print(\"RHS:\", rhs, \"as:\", res)\n" ++
    "    if res is None:\n" ++
    "        return res\n" ++
    "    elif len(rhs) == 1:\n" ++
    "        t = rhs[0]\n" ++
    "        if type(t) is Fact:\n" ++
    "            return res\n" ++
    "    elif len(rhs) == 2:\n" ++
    "        op, val = rhs\n" ++
    "        if op.name == '!':\n" ++
    "            return not res\n" ++
    "        else:\n" ++
    "            raise ValueError(\"Invalid RHS:\", rhs)\n" ++
    "    elif len(rhs) == 3:\n" ++
    "        a, op, b = rhs\n" ++
    "        second = b if f == a else b\n" ++
    "        if op.name == '+':\n" ++
    "            if res is True:\n" ++
    "                return True\n" ++
    "            else:\n" ++
    "                if second is False:\n" ++
    "                    return True\n" ++
    "                else:\n" ++
    "                    return None\n" ++
    "    else:\n" ++
    "        raise ValueError(\"Invalid RHS:\", rhs)\n" ++
    "\n" ++
    "\n" ++
    "def resolve_query(rules, facts, f, verbose=False, stack=[]):\n" ++
    "    if f in stack:\n" ++
    "        return None\n" ++
    "    else:\n" ++
    "        stack.append(f)\n" ++
    "    result = None\n" ++
    "    if verbose:\n" ++
    "        print(\"Resolving query:\", f)\n" ++
    "    if type(f) is bool:\n" ++
    "        return f\n" ++
    "    if f.atomic:\n" ++
    "        result = f.value\n" ++
    "    else:\n" ++
    "        # Resolving among complex\n" ++
    "        rules_with_rhs = [r for r in rules if f in r[2]]\n" ++
    "        if verbose:\n" ++
    "            print(\"RULES WITH RHS:\", rules_with_rhs)\n" ++
    "        for r in rules_with_rhs:\n" ++
    "\n" ++
    "            lhs, cons, rhs = r[0][:], r[1], r[2][:]\n" ++
    "            \n" ++
    "            if f in lhs:\n" ++
    "                print(\"Recursion attempted\")\n" ++
    "                continue\n" ++
    "\n" ++
    "            rpn = infix_to_rpn(lhs)\n" ++
    "            if verbose:\n" ++
    "                print(\"RPN:\", rpn)\n" ++
    "            evaluated_lhs = evaluate_rpn(rpn, facts, rules)\n" ++
    "            if verbose:\n" ++
    "                print(\"LHS EVAL:\", evaluated_lhs, \"is None:\", evaluated_lhs is None)\n" ++
    "            if evaluated_lhs is None:\n" ++
    "                if verbose:\n" ++
    "                    print(\"Continued\")\n" ++
    "                continue\n" ++
    "            elif cons.name == '=>':\n" ++
    "                if verbose:\n" ++
    "                    print(\"Resolving implication\")\n" ++
    "                if evaluated_lhs is True:\n" ++
    "                    result = solve_rhs(facts, rhs, True, f, verbose=verbose)\n" ++
    "                else:\n" ++
    "                    if verbose:\n" ++
    "                        print(\"Proposition is False, moving on\")\n" ++
    "                    continue\n" ++
    "            elif cons.name == '<=>':\n" ++
    "                if verbose:\n" ++
    "                    print(\"Resolving equivalence\")\n" ++
    "                result = solve_rhs(facts, rhs, evaluated_lhs, f, verbose=verbose)\n" ++
    "            else:\n" ++
    "                raise ValueError(\"Invalid consequence operator\", cons)\n" ++
    "    stack.pop()\n" ++
    "    return result\n" ++
    "\n" ++
    "def resolve_queries(rules, facts, queries, args):\n" ++
    "    for q in queries:\n" ++
    "        if q not in facts:\n" ++
    "            print(f\"Query is not understood: \x7bq\x7d\")\n" ++
    "            continue\n" ++
    "        f = facts[q]\n" ++
    "        res = resolve_query(rules, facts, f, args.verbose)\n" ++
    "        if res is None:\n" ++
    "            res = False\n" ++
    "        print(f\"Q[\x7bq\x7d]: \x7bres\x7d\")\n" ++
    "\n" ++
    "if __name__ == '__main__':\n" ++
    "    parser = argparse.ArgumentParser()\n" ++
    "    parser.add_argument('--interactive', '-i', default=False, action='store_true', help='interactive mode')\n" ++
    "    parser.add_argument('--file', '-f', default=None, help='File to read')\n" ++
    "    parser.add_argument('--natural', '-n', default=True, action='store_true', help='more natural input')\n" ++
    "    parser.add_argument('--verbose', '-v', default=False, action='store_true', help='more verbose evaluation')\n" ++
    "    parser.add_argument('--strict', '-s', default=False, action='store_true', help='Be strict when ambiguous (None->False converter)')\n" ++
    "\n" ++
    "    args = parser.parse_args()\n" ++
    "\n" ++
    "    env = []\n" ++
    "    if args.interactive:\n" ++
    "        rules, init_facts, facts, queries = [], \"\", dict(), \"\"\n" ++
    "\n" ++
    "        while True:\n" ++
    "            inp = input(\"> \")\n" ++
    "            if args.natural:\n" ++
    "                inp = inp.upper()\n" ++
    "            if inp.lower() == 'q' or inp.lower() == 'quit':\n" ++
    "                break\n" ++
    "            elif inp.lower() == 'facts':\n" ++
    "                print(facts)\n" ++
    "                continue\n" ++
    "            elif inp.lower() == 'rules':\n" ++
    "                print(rules)\n" ++
    "                continue\n" ++
    "            elif inp.lower() == 'exec':\n" ++
    "                if args.verbose:\n" ++
    "                    print(f\"QUERIES NOW: |\x7bqueries\x7d| | RULES: \x7brules\x7d\")\n" ++
    "\n" ++
    "                initialize_facts(init_facts, facts)\n" ++
    "                resolve_queries(rules, facts, queries, args)\n" ++
    "            else:\n" ++
    "                try:\n" ++
    "                    if not inp:\n" ++
    "                        continue\n" ++
    "                    if inp.startswith(\"=\"):\n" ++
    "                        init_facts = inp[1:]\n" ++
    "                    elif inp.startswith(\"?\"):\n" ++
    "                        queries = inp[1:].strip()\n" ++
    "                    else:\n" ++
    "                        rules.append(parse_rule(inp, facts))\n" ++
    "                except ValueError as e:\n" ++
    "                    print(e)\n" ++
    "    else:\n" ++
    "        if args.file is not None:\n" ++
    "            try:\n" ++
    "                f = open(args.file)\n" ++
    "            except ValueError:\n" ++
    "                print(\"No such file. Nice try\")\n" ++
    "                exit(1)\n" ++
    "        else:\n" ++
    "            f = sys.stdin\n" ++
    "        try:\n" ++
    "            proper_input = parse_file(f)\n" ++
    "            # print(\"PROP INPUT:\")\n" ++
    "            rules, init_facts, facts, queries = validate_input(proper_input)\n" ++
    "            \n" ++
    "            initialize_facts(init_facts, facts)\n" ++
    "            \n" ++
    "            if args.verbose:\n" ++
    "                print(\"RULES\", rules)\n" ++
    "                print(\"INIT FACTS:\", init_facts)\n" ++
    "                print(\"FACTS:\", facts)\n" ++
    "                print(\"QUERIES:\", queries)\n" ++
    "\n" ++
    "            resolve_queries(rules, facts, queries, args)\n" ++
    "            \n" ++
    "        except ValueError as e:\n" ++
    "            print(e)\n" ++
    "            exit(1)\n")]

/-- A file whose bytes are not UTF-8: the first byte that breaks the reading, its position, and
what is wrong with it. -/
structure Undecodable where
  byte : Nat
  position : Nat
  reason : String

/-- The files of the working directory that are not text. -/
def binaries : List (String × Undecodable) :=
  [("resources/expert-system.en.pdf", ⟨0xd0, 10, "invalid continuation byte"⟩)]

/-- The directories below the working directory. -/
def directories : List String := ["rules", "rules/weird", "resources"]

/-- The working directory, as its parts from the root. -/
def home : List String := ["repo"]

/-- What a path of parts from the root names. -/
inductive Node
  | dir
  | file (text : String)
  | binary (u : Undecodable)

/-- What a path of parts from the root names, if anything. -/
def node? (parts : List String) : Option Node :=
  match parts with
  | [] => some .dir
  | ["repo"] => some .dir
  | "repo" :: rel =>
    let name := "/".intercalate rel
    if directories.contains name then some .dir
    else
      match (samples ++ others).lookup name with
      | some text => some (.file text)
      | none => (binaries.lookup name).map .binary
  | _ => none

/-- Follows the parts of the name `name` from the path `here`. -/
def walk (name : String) : List String → List String → Except Fault (List String)
  | here, [] => .ok here
  | here, part :: rest =>
    match node? here with
    | some (.file _) | some (.binary _) => .error (.notDirectory name)
    | _ =>
      if part = "" ∨ part = "." then walk name here rest
      else if part = ".." then walk name here.dropLast rest
      else if part.utf8ByteSize > 255 then .error (.nameTooLong name)
      else
        match node? (here ++ [part]) with
        | none => .error (.missingFile name)
        | some _ => walk name (here ++ [part]) rest

/-- The text of the file a name names. -/
def read (name : String) : Except Fault String :=
  if name.contains (Char.ofNat 0) then .error .nulInFileName
  else if name = "" then .error (.missingFile name)
  else if name.utf8ByteSize ≥ 4096 then .error (.nameTooLong name)
  else
    let (start, parts) := match name.splitOn "/" with
      | "" :: parts => ([], parts)
      | parts => (home, parts)
    match walk name start parts with
    | .error e => .error e
    | .ok here =>
      match node? here with
      | some (.file text) => .ok text
      | some (.binary u) => .error (.undecodable u.byte u.position u.reason)
      | _ => .error (.isDirectory name)

end Entail.Files
