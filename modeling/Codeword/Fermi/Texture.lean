import Codeword.Fermi.Move

namespace Codeword.Fermi

def noSource1 : Word := 0x3f0_0000

def exportMask : Word := 0xfe7e_0000_03f0_0107

def textureMask : Word := 0xfc00_0000_fc00_0007

def textureOperands : List Atom :=
  [textureFlags, texelDst, textureUnit, sampler, texelSrc]

/-- Constants, attributes and textures, class 6. Most unknown instructions have the operands
of a texture access. -/
def texture : Table where
  name := "texture"
  rows :=
    [⟨code 0x00 6, 0xfe00_0000_0000_0067, [.opcode "pfetch", dst, vertexBase]⟩,
     ⟨code 0x06 6, 0xfe00_0000_0000_0107,
      [.opcode "vfetch", vertexDst, fetchWidth, vertexAttribute]⟩,
     ⟨code 0x06 6 ||| 0x100, 0xfe00_0000_0000_0107,
      [.opcode "vfetch", "patch", vertexDst, fetchWidth, vertexAttribute]⟩,
     -- a geometry program has no third source, a vertex program has register 63
     ⟨code 0x0a 6 ||| noSource1, exportMask, [.opcode "export", varying, exportSrc]⟩,
     ⟨code 0x0a 6 ||| 0x007e_0000_0000_0000 ||| noSource1, exportMask,
      [.opcode "export", varying, exportSrc]⟩,
     ⟨code 0x0a 6 ||| 0x007e_0000_0000_0000 ||| noSource1 ||| 0x100, exportMask,
      [.opcode "export", "patch", varying, exportSrc]⟩,
     ⟨code 0x14 6, opcodeMask6, [.opcode "ld", accessType, accessData, constantIndexed]⟩,
     ⟨code 0x1c 6 ||| noSource2 ||| 0x20, 0xfe00_0000_fc00_0067, [.opcode "emit"]⟩,
     ⟨code 0x1c 6 ||| noSource2 ||| 0x40, 0xfe00_0000_fc00_0067, [.opcode "restart"]⟩,
     ⟨code 0x80 6 ||| noSource2 ||| 0x80, textureMask ||| 0x80,
      .opcode "texauto" :: textureOperands⟩,
     ⟨code 0x90 6 ||| noSource2 ||| 0x80, textureMask ||| 0x80,
      .opcode "texfetch" :: textureOperands⟩,
     ⟨code 0xc0 6 ||| noSource2, textureMask, .opcode "texsize" :: textureOperands⟩,
     .unknown textureOperands]

end Codeword.Fermi
